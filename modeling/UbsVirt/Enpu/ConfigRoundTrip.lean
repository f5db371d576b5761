import UbsVirt.Enpu.Atomicity
import UbsVirt.Enpu.Capacity
import UbsVirt.Enpu.ConfigText

/-!
# Every allocation is read back by the runtime

The shared memory of a die is named after the die id it was first created for, by an
allocation or by a recovery, and that name is what goes into the configuration file. Along
every run these names stay names of dies; with the bounds the evaluator checks, the file of
every granted allocation is one the runtime accepts and reads back as it was granted.
Source: `enpu-manager/core/src/npu_allocator.c:559-884`, `shm_manager.c:244-306`.
-/

namespace UbsVirt.Enpu

open List
open Subset (refl)

theorem Registry.release_subset (r : Registry) (pod container : String) (save : Status) :
    (r.release pod container save).2.entries ⊆ r.entries := by
  unfold Registry.release
  split
  · exact eraseP_subset
  · exact refl _

namespace Allocator

open Run

variable {F : Type} {cfg : NodeConfig F} {s s' : Allocator F}

/-! ### Names of shared memories -/

/-- Every shared memory, and the die of every registered allocation, has a name that
satisfies `G`. -/
structure Named (G : String → Prop) (s : Allocator F) : Prop where
  shm : ShmNamed G s
  registry : ∀ a ∈ s.registry.entries, G a.dieId

variable {a : Allocation} {d : DieMeta}

section

variable {G : String → Prop}

section

variable (h : Named G s)
include h

theorem Named.congr (hshm : s'.shm = s.shm)
    (hreg : s'.registry.entries ⊆ s.registry.entries) : Named G s' where
  shm := h.shm.congr hshm
  registry a ha := h.registry a (hreg ha)

theorem Named.setShm (phyId : Int) {st : ShmState} (hst : G st.shmId)
    (hshm : s'.shm = Function.update s.shm phyId (some st))
    (hreg : s'.registry = s.registry) : Named G s' where
  shm := h.shm.setShm hshm hst
  registry a ha := h.registry a (by rw [← hreg]; exact ha)

theorem Named.setLeaf (phyId : Int) (l : LeafState) : Named G (s.setLeaf phyId l) :=
  h.congr rfl (refl _)

theorem Named.shmApplyVnpu {dieId : String} (hdie : G dieId) (phyId : Int)
    (hbmTotal : UInt64) (v : Nat) (e : VnpuShmEntry) (create : Bool) :
    Named G (s.shmApplyVnpu phyId dieId hbmTotal v e create).2.2 ∧
      ((s.shmApplyVnpu phyId dieId hbmTotal v e create).1 = .success →
        G (s.shmApplyVnpu phyId dieId hbmTotal v e create).2.1) := by
  have hst : G (s.shmOf phyId dieId).shmId := h.shm.shmOf hdie
  unfold Allocator.shmApplyVnpu
  rcases s.getOrCreateShm_eq phyId dieId create with ⟨e, hne, herr, -⟩ | ⟨-, -, hok⟩
  · rw [herr]
    exact ⟨h, fun hok => absurd hok hne⟩
  · rw [hok]
    have h₁ : Named G { s with shm := Function.update s.shm phyId (some (s.shmOf phyId dieId)) } :=
      h.setShm phyId hst rfl rfl
    refine ⟨h₁.setShm phyId ?_ rfl rfl, fun _ => hst⟩
    rw [ShmState.addEntry_shmId]
    split
    · rwa [ShmState.removeEntry_shmId, shmFree_shmId]
    · exact hst

theorem Named.shmReleaseVnpu (phyId : Int) (v : Nat) : Named G (s.shmReleaseVnpu phyId v).2 := by
  obtain ⟨-, hreg, -, hids⟩ := s.shmReleaseVnpu_frame phyId v
  refine ⟨hids G h.shm, ?_⟩
  rw [hreg]
  exact h.registry

theorem Named.shmRemoveEntry (phyId : Int) (v : Nat) : Named G (s.shmRemoveEntry phyId v).2 := by
  unfold Allocator.shmRemoveEntry
  split
  · exact h
  · split
    · exact h
    · split
      · exact h
      · next st hst =>
        refine h.setShm phyId ?_ rfl rfl
        rw [ShmState.removeEntry_shmId]
        exact h.shm phyId st hst

end

variable [DecidableEq F]

theorem Named.undoStep (h : Named G s) (unlink : Bool) (save : Status) (step : RollbackStep) :
    Named G (undoStep cfg s unlink save step).2 := by
  cases step with
  | markOccupied phyId v
  | updateQuota phyId v aicore hbm
  | attachPolicy phyId v
  | writeConfig phyId v pod container =>
    simp only [Enpu.undoStep]
    split
    · exact h
    · exact h.congr rfl (refl _)
  | createShm phyId v shmId =>
    simp only [Enpu.undoStep]
    split
    · exact h
    · exact h.shmRemoveEntry phyId v
  | saveCheckpoint phyId v pod container =>
    simp only [Enpu.undoStep]
    split
    · exact h
    · exact h.congr rfl (Registry.release_subset _ _ _ _)

/-- Undoing any log keeps the names. -/
theorem Named.rollback (h : Named G s) (log : List RollbackStep) (unlink : Bool)
    (save : Status) : Named G (rollbackLogRollback cfg s log unlink save).2 := by
  rw [rollbackLogRollback_snd]
  induction log.reverse generalizing s with
  | nil => exact h
  | cons step steps ih => exact ih (h.undoStep unlink save step)

theorem stepError_result (a : Allocation) (status : Status) (step : AllocStep) :
    (stepError a status step).result = status := by
  cases step <;> rfl

/-- A configuration file is written only when the call reports success. -/
theorem writeConfig_success {files : F → Option String} {file : F} {content : String}
    {w : WriteOutcome} (h : (writeConfig files file content w).1 = .success) :
    (writeConfig files file content w).2 file = some content := by
  cases w with
  | done => exact Function.update_self ..
  | _ => cases h

omit [DecidableEq F] in
theorem Named.register (h : Named G s) (ha : G a.dieId) {malloc : Bool}
    {save : Status} (hshm : s'.shm = s.shm)
    (hreg : s'.registry = (s.registry.register a malloc save).2) : Named G s' := by
  refine ⟨h.shm.congr hshm, fun b hb => ?_⟩
  rw [hreg] at hb
  rcases s.registry.register_cases a malloc save with ⟨-, -, heq⟩ | ⟨-, -, heq⟩
  · rw [heq] at hb
    exact h.registry b hb
  · rw [heq, mem_append, mem_singleton] at hb
    rcases hb with hb | rfl
    · exact h.registry b hb
    · exact ha

section

variable (h : Named G s)
include h

/-- The steps of an allocation keep the names; if they succeed, the allocation that is
granted is the selected one with the name of its shared memory, and its file has been
written. -/
theorem Named.allocateSteps (hdie : G a.dieId) (ch : AllocChoices) :
    Named G (s.allocateSteps cfg a d ch).2 ∧ ((s.allocateSteps cfg a d ch).1.result = .success →
        ∃ shmId, G shmId ∧ (s.allocateSteps cfg a d ch).1.grant = some { a with shmId := shmId } ∧
          (s.allocateSteps cfg a d ch).2.files (cfg.configFile a.podUid a.containerName) =
            some (generateConfigContent { a with shmId := shmId }.config)) := by
  have hfail : ∀ {status : Status} {step : AllocStep} {P : Prop}, status ≠ .success →
      (stepError a status step).result = .success → P := by
    intro status step P hne hok
    rw [stepError_result] at hok
    exact absurd hok hne
  unfold Allocator.allocateSteps
  simp only
  split
  · next hmark => exact ⟨h, hfail hmark⟩
  split
  · next hattach =>
    dsimp only
    exact ⟨((h.setLeaf _ _).setLeaf _ _).rollback _ _ _, hfail hattach⟩
  generalize hs₃ : Allocator.setLeaf (Allocator.setLeaf (Allocator.setLeaf s _ _) _ _) _ _ = s₃
  have h₃ : Named G s₃ := by
    rw [← hs₃]
    exact ((h.setLeaf _ _).setLeaf _ _).setLeaf _ _
  obtain ⟨h₄, hname⟩ := h₃.shmApplyVnpu hdie d.phyId d.totalBytes a.vnpuId
    (buildShmEntry a (cfg.ratio d.phyId).enabled) ch.shmCreate
  generalize s₃.shmApplyVnpu d.phyId a.dieId d.totalBytes a.vnpuId
    (buildShmEntry a (cfg.ratio d.phyId).enabled) ch.shmCreate = r at h₄ hname ⊢
  split
  · next happly =>
    dsimp only
    exact ⟨h₄.rollback _ _ _, hfail happly⟩
  next happly =>
  split
  · next hwrite =>
    dsimp only
    refine ⟨Named.rollback ?_ _ _ _, hfail hwrite⟩
    exact h₄.congr rfl (refl _)
  next hwrite =>
  split
  · next hregister =>
    dsimp only
    refine ⟨Named.rollback ?_ _ _ _, hfail hregister⟩
    exact h₄.register (a := { a with shmId := r.2.1 }) hdie rfl rfl
  · rw [not_not] at happly hwrite
    dsimp only
    refine ⟨?_, fun _ => ⟨r.2.1, hname happly, rfl, writeConfig_success hwrite⟩⟩
    exact h₄.register (a := { a with shmId := r.2.1 }) hdie rfl rfl

theorem Named.allocate (hleaves : ∀ d ∈ cfg.leaves, G d.dieId)
    (req : AllocRequest) (ch : AllocChoices) : Named G (s.allocate cfg req ch).2 := by
  rcases allocate_cases cfg s req ch with ⟨-, -, hsame⟩ | ⟨a, d, -, hsel, heq⟩
  · rwa [hsame]
  · have hdie : G a.dieId := by
      rw [hsel.dieId]
      exact hleaves d hsel.mem
    rw [heq]
    exact (h.allocateSteps hdie ch).1

omit [DecidableEq F] in
theorem Named.of_released (hrel : Released cfg s a s') : Named G s' := by
  refine ⟨hrel.shmIds G h.shm, fun b hb => ?_⟩
  rw [hrel.registry] at hb
  exact h.registry b (eraseP_subset hb)

theorem Named.recoverOne (hdie : G a.dieId) (ch : RecoverChoices) :
    Named G (s.recoverOne cfg a ch) ∧ (s.recoverOne cfg a ch).registry = s.registry := by
  cases hrec : recovers cfg a with
  | false =>
    rw [recoverOne_of_not_recovers hrec]
    exact ⟨h, rfl⟩
  | true =>
    obtain ⟨hreg, -, ⟨hsame, -⟩ | ⟨-, -, total, hshm⟩⟩ := recoverOne_cases cfg s hrec ch
    · exact ⟨h.congr hsame (by simp [hreg]), hreg⟩
    · have hst : G (recoveredShm a total (s.shmOf a.phyId a.dieId)).shmId := h.shm.shmOf hdie
      exact ⟨h.setShm a.phyId hst hshm hreg, hreg⟩

theorem Named.recover (ch : Nat → RecoverChoices) : Named G (s.recover cfg ch) := by
  -- the loop runs over the registry of the start, which no iteration changes
  have key : ∀ (es : List (Allocation × Nat)) (t : Allocator F), Named G t →
      (∀ e ∈ es, G e.1.dieId) →
      Named G (es.foldl (fun s e => s.recoverOne cfg e.1 (ch e.2)) t) := by
    intro es
    induction es with
    | nil => exact fun t ht _ => ht
    | cons e es ih =>
      intro t ht hes
      exact ih _ (ht.recoverOne (hes e mem_cons_self) (ch e.2)).1
        fun e' he' => hes e' (mem_cons_of_mem e he')
  exact key _ s h fun e he => h.registry e.1 (fst_mem_of_mem_zipIdx he)

/-- Every operation keeps the names. -/
theorem Named.opStep (hleaves : ∀ d ∈ cfg.leaves, G d.dieId) (op : Op) :
    Named G (s.opStep cfg op) := by
  cases op with
  | call c =>
    exact step_keeps h (fun _ _ _ => h.of_released) c fun req ch _ => h.allocate hleaves req ch
  | releaseExternal phyId v => exact h.shmReleaseVnpu phyId v
  | recover ch => exact h.recover ch

end

end

/-! ### The bounds of an allocation -/

variable {req : AllocRequest}

/-- The compute settings a checked request can have. -/
theorem checkRequest_compute {c : CheckedRequest} (h : checkRequest req = .ok c) :
    (c.vnpuPriority = .normal ∧ 0 < c.aicoreQuota.toInt ∧ c.aicoreQuota.toInt ≤ 100) ∨
      (c.vnpuPriority = .high ∧ c.aicoreQuota = 0 ∧ c.schedPolicy = .bestEffort) := by
  unfold checkRequest at h
  simp only at h
  split at h
  · rw [if_neg (by decide)] at h
    split at h
    · cases h
    · next p hp =>
      cases h
      refine .inr ⟨rfl, rfl, ?_⟩
      unfold parseHbmRequestLimit at hp
      rw [if_neg (by decide), if_pos (by decide)] at hp
      split at hp
      · cases hp
      · cases hp
        rfl
  · split at h
    swap
    · cases h
    split at h
    · cases h
    next hpos =>
    split at h
    · cases h
    next hle =>
    split at h
    · cases h
    · cases h
      refine .inl ⟨rfl, ?_, ?_⟩
      · have := Int32.lt_iff_toInt_lt.mp (Int32.not_le.mp hpos)
        simpa using this
      · have := Int32.le_iff_toInt_le.mp (Int32.not_lt.mp hle)
        simpa using this

/-- What is selected comes from a checked request and an answer of the evaluator. -/
theorem selected_some {ch : AllocChoices} (h : s.selected cfg req ch = some (a, d)) :
    ∃ c v, checkRequest req = .ok c ∧
      s.selectVnpu cfg req.predicatePhyId c ch.nodesCalloc = .ok (d, v) ∧
      a = newAllocation req c d v ch.time := by
  unfold selected at h
  cases hc : checkRequest req with
  | error e =>
    rw [hc] at h
    cases h
  | ok c =>
    rw [hc] at h
    simp only at h
    split at h
    · cases h
    split at h
    · cases h
    split at h
    · cases h
    split at h
    · cases h
    · next d' v hv =>
      cases h
      exact ⟨c, v, rfl, hv, rfl⟩

/-- The configuration of an allocation the evaluator selected is within the bounds the
runtime asks for, once its shared memory is named. -/
theorem bounded_of_select {c : CheckedRequest} {calloc : Bool}
    {v time : Nat} (hc : checkRequest req = .ok c)
    (h : s.selectVnpu cfg req.predicatePhyId c calloc = .ok (d, v)) {shmId : String}
    (hname : DieName shmId) :
    { newAllocation req c d v time with shmId := shmId }.config.Bounded := by
  have hsel : s.Selection cfg (newAllocation req c d v time) d := selection_of_select hc h
  have heval := selectVnpu_spec cfg s req.predicatePhyId c calloc
  rw [h] at heval
  obtain ⟨-, -, hpos, -⟩ := evaluateShare_ok heval
  have hpos : 0 < c.hbmRequest.toNat := UInt64.lt_iff_toNat_lt.mp hpos
  have hle : c.hbmRequest.toNat ≤ c.hbmLimit.toNat := UInt64.le_iff_toNat_le.mp hsel.request_le
  have hlimit : c.hbmLimit.toNat ≤ d.totalMb.toNat := UInt64.le_iff_toNat_le.mp hsel.limit_le
  have htotal := totalMb_lt d
  exact
    { phyNpuId := hsel.inRange
      vnpuId := LeafState.lt_of_isFree hsel.isFree
      request_pos := hpos
      request_le := hle
      limit_lt := Nat.lt_of_le_of_lt hlimit htotal
      compute := checkRequest_compute hc
      shmId := hname }

/-! ### The theorem -/

variable [DecidableEq F]

/-- What the runtime has to make of the file of an allocation: its text fits the buffer it is
written from, `load_config` accepts it and loads the granted values, and
`enpu_config_info_init` accepts those and takes them over, whatever its record held. -/
structure ReadBack (a : Allocation) (text : String) : Prop where
  fits : text.toList.length < 1024
  loads : ∃ c, loadConfig text = some c ∧
    c.phyNpuId = a.phyId ∧ c.vnpuId = a.vnpuId ∧ c.aicoreQuota = a.aicoreQuota.toInt ∧
    c.memoryRequest = a.hbmQuota ∧ c.memoryLimit = a.hbmLimit ∧
    c.schedulingPolicy = a.schedPolicy.code ∧ c.vnpuPriority = a.vnpuPriority.code ∧
    c.shmId = a.shmId ∧
    ∀ g, ∃ g', enpuConfigInfoInit c g = (true, g') ∧ TakenOver a.config g'

theorem readBack_of_bounded (h : a.config.Bounded) :
    ReadBack a (generateConfigContent a.config) where
  fits := h.generateConfigContent_length_lt
  loads := ⟨a.config.loaded, h.loadConfig_generated, rfl, rfl, rfl, rfl, rfl, rfl, rfl, rfl,
    fun g => ⟨_, h.enpuConfigInfoInit_loaded g, h.takenOver_info g⟩⟩

/-- On a node whose dies have proper names, in every run and whatever the file system does,
the configuration file of every allocation that succeeds is accepted by the runtime and read
back as it was granted. -/
theorem config_read_back (hleaves : ∀ d ∈ cfg.leaves, DieName d.dieId) {registry : Registry}
    (hreg : ∀ a ∈ registry.entries, DieName a.dieId) (pool : Tlsf.Pool)
    (files : F → Option String) (run : List Op) (req : AllocRequest) (ch : AllocChoices)
    (hok : ((exec (opStep cfg) (init cfg registry pool files) run).allocate cfg req
      ch).1.result = .success) :
    let r := (exec (opStep cfg) (init cfg registry pool files) run).allocate cfg req ch
    ∃ a text, r.1.grant = some a ∧
      r.2.files (cfg.configFile a.podUid a.containerName) = some text ∧ ReadBack a text := by
  have hinit : Named DieName (init cfg registry pool files) := by
    refine ⟨fun phyId st h => ?_, hreg⟩
    cases h
  have hnamed : Named DieName (exec (opStep cfg) (init cfg registry pool files) run) :=
    (throughout_of_step (C := fun _ _ => True) hinit (fun s op h _ => h.opStep hleaves op)
      (eachStep_of_forall fun _ _ => trivial)).last
  generalize exec (opStep cfg) (init cfg registry pool files) run = s at hok hnamed ⊢
  rcases allocate_cases cfg s req ch with ⟨-, hfail, -⟩ | ⟨a, d, hselected, hsel, heq⟩
  · exact absurd hok hfail
  · have hdie : DieName a.dieId := by
      rw [hsel.dieId]
      exact hleaves d hsel.mem
    rw [heq] at hok ⊢
    obtain ⟨shmId, hname, hgrant, hfile⟩ := (hnamed.allocateSteps hdie ch).2 hok
    obtain ⟨c, v, hc, hv, rfl⟩ := selected_some hselected
    exact ⟨_, _, hgrant, hfile, readBack_of_bounded (bounded_of_select hc hv hname)⟩

def onePod : List Op :=
  [.call (.allocate halfDie { saveFails with save := .success })]

def otherHalf : AllocRequest :=
  { halfDie with podUid := "pod2" }

/-- The second half of a die goes to a second pod; its file is read back. -/
theorem otherHalf_read_back :
    let r := (exec (opStep oneDie) emptyNode onePod).allocate oneDie otherHalf
      { saveFails with save := .success }
    r.1.result = .success ∧ ∃ a text, r.1.grant = some a ∧
      r.2.files (oneDie.configFile a.podUid a.containerName) = some text ∧ ReadBack a text := by
  have hleaves : ∀ d ∈ oneDie.leaves, DieName d.dieId := by
    intro d hd
    rw [mem_singleton.mp hd]
    exact ⟨by decide, by decide, forall_mem_of_all (by decide), by decide, by decide⟩
  have hok : ((exec (opStep oneDie) emptyNode onePod).allocate oneDie otherHalf
      { saveFails with save := .success }).1.result = .success := by decide +kernel
  have hreg : ∀ a ∈ Registry.empty.entries, DieName a.dieId := by
    intro a ha
    cases ha
  unfold emptyNode at hok ⊢
  exact ⟨hok, config_read_back hleaves hreg (Tlsf.init 0) (fun _ => none) onePod otherHalf _ hok⟩

end Allocator

end UbsVirt.Enpu
