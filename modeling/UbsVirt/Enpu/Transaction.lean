import UbsVirt.Enpu.Allocator

/-!
# What an allocation can do

The steps of `npu_allocator_allocate` and the rollback of a failed one, summed up in one
statement (`allocateSteps_spec`): the call either undoes everything it did, or undoes
everything but the registry entry it could not save, or grants the vNPU. The later
modules use only this statement.
-/

namespace UbsVirt.Enpu

open ShmState LeafState Function AllocResponse

variable {F : Type} {s : Allocator F} {phyId : Int} {st : ShmState}

namespace Allocator

/-! ### Views -/

/-- The shared-memory entry of a vNPU that is in the bitmap of its die (`find_entry`). A die
without shared memory has no vNPU. -/
def liveEntry (s : Allocator F) (phyId : Int) (v : Nat) : Option VnpuShmEntry :=
  (s.shm phyId).bind (·.findEntry v)

@[simp]
theorem setLeaf_leaf_self (s : Allocator F) (phyId : Int) (l : LeafState) :
    (s.setLeaf phyId l).leaf phyId = l := by
  simp [setLeaf]

@[simp]
theorem setLeaf_setLeaf (s : Allocator F) (phyId : Int) (l l' : LeafState) :
    (s.setLeaf phyId l).setLeaf phyId l' = s.setLeaf phyId l' := by
  simp [setLeaf]

@[simp]
theorem setLeaf_eq_self (s : Allocator F) (phyId : Int) : s.setLeaf phyId (s.leaf phyId) = s := by
  simp [setLeaf]

theorem liveEntry_setShm {s' : Allocator F}
    (h : s'.shm = update s.shm phyId (some st)) (p : Int) (v : Nat) :
    s'.liveEntry p v = if p = phyId then st.findEntry v else s.liveEntry p v := by
  by_cases hp : p = phyId
  · subst hp; simp [liveEntry, h]
  · simp [liveEntry, h, hp]

end Allocator

variable {v : Nat} {e : VnpuShmEntry}

namespace ShmState

theorem findEntry_create (dieId : String) (v : Nat) : (create dieId).findEntry v = none := by
  simp [findEntry, bitmapTest, create]

@[simp]
theorem findEntry_initState (st : ShmState) (hbm : UInt64) (v : Nat) :
    (st.initState hbm).findEntry v = st.findEntry v := rfl

theorem addEntry_of_free (hv : v < maxVnpuPerDie) (h : st.bitmapTest v = false) :
    st.addEntry v e = (.success,
      { st with
        entries := update st.entries v e
        vnpuBitmap := update st.vnpuBitmap v true }) := by
  have hlt : ¬ maxVnpuPerDie ≤ v := by omega
  simp [addEntry, hlt, h]

theorem findEntry_addEntry (hv : v < maxVnpuPerDie) (h : st.bitmapTest v = false) (w : Nat) :
    (st.addEntry v e).2.findEntry w = if w = v then some e else st.findEntry w := by
  rw [addEntry_of_free hv h]
  by_cases hw : w = v
  · subst hw; simp [findEntry, bitmapTest, hv]
  · simp [findEntry, bitmapTest, hw]

theorem bitmapTest_eq (st : ShmState) (v : Nat) : st.bitmapTest v = (st.findEntry v).isSome := by
  unfold findEntry
  cases st.bitmapTest v <;> simp

theorem findEntry_removeEntry (st : ShmState) (v w : Nat) :
    (st.removeEntry v).2.findEntry w = if w = v then none else st.findEntry w := by
  unfold removeEntry
  split
  · next hv =>
    by_cases hw : w = v
    · subst hw
      have : ¬ w < maxVnpuPerDie := by omega
      simp [findEntry, bitmapTest, this]
    · simp [hw]
  · split
    · next hfree =>
      by_cases hw : w = v
      · subst hw
        simp only [Bool.not_eq_eq_eq_not, Bool.not_true] at hfree
        simp [findEntry, hfree]
      · simp [hw]
    · by_cases hw : w = v
      · subst hw; simp [findEntry, bitmapTest]
      · simp [findEntry, bitmapTest, modifyEntry, hw]

theorem addEntry_shmId (st : ShmState) (v : Nat) (e : VnpuShmEntry) :
    (st.addEntry v e).2.shmId = st.shmId := by
  unfold addEntry
  split
  · rfl
  · split <;> rfl

theorem removeEntry_shmId (st : ShmState) (v : Nat) : (st.removeEntry v).2.shmId = st.shmId := by
  unfold removeEntry
  split
  · rfl
  · split <;> rfl

end ShmState

/-! ### Shared memory -/

namespace Allocator

/-- The shared state of a die that `shm_manager_get_or_create_shm` returns. -/
def shmOf (s : Allocator F) (phyId : Int) (dieId : String) : ShmState :=
  (s.shm phyId).getD (ShmState.create dieId)

theorem shmOf_findEntry (s : Allocator F) (phyId : Int) (dieId : String) (v : Nat) :
    (s.shmOf phyId dieId).findEntry v = s.liveEntry phyId v := by
  unfold shmOf liveEntry
  cases s.shm phyId with
  | none => simp [findEntry_create]
  | some st => rfl

/-- The names of the shared memories satisfy `G`. -/
def ShmNamed (G : String → Prop) (s : Allocator F) : Prop :=
  ∀ phyId st, s.shm phyId = some st → G st.shmId

section

variable {G : String → Prop} {s s' : Allocator F} {phyId : Int}

theorem ShmNamed.shmOf (h : ShmNamed G s) {dieId : String} (hdie : G dieId) :
    G (s.shmOf phyId dieId).shmId := by
  unfold Allocator.shmOf
  cases hs : s.shm phyId with
  | none => exact hdie
  | some st => exact h phyId st hs

theorem ShmNamed.congr (h : ShmNamed G s) (hshm : s'.shm = s.shm) : ShmNamed G s' := by
  unfold ShmNamed
  rwa [hshm]

theorem ShmNamed.setShm (h : ShmNamed G s) {st : ShmState}
    (hshm : s'.shm = update s.shm phyId (some st)) (hst : G st.shmId) : ShmNamed G s' := by
  intro p st' hst'
  rw [hshm, Maps.update_eq_some] at hst'
  rcases hst' with ⟨-, ⟨rfl⟩⟩ | ⟨-, hst'⟩
  · exact hst
  · exact h p st' hst'

end

def shmAdded (s : Allocator F) (phyId : Int) (dieId : String) (hbmTotal : UInt64) (v : Nat)
    (e : VnpuShmEntry) : ShmState :=
  (((s.shmOf phyId dieId).initState hbmTotal).addEntry v e).2

/-- What `shm_apply_vnpu_locked` does for an id that is not in the bitmap: it fails only
when the shared memory of the die cannot be made, and otherwise adds the entry. -/
theorem shmApplyVnpu_cases (hphy : 0 ≤ phyId ∧ phyId < maxNpuPerNode) (hv : v < maxVnpuPerDie)
    (hfree : s.liveEntry phyId v = none) (dieId : String) (hbmTotal : UInt64) (e : VnpuShmEntry)
    (create : Bool) :
    (((s.shm phyId).isSome || create) = false ∧
      s.shmApplyVnpu phyId dieId hbmTotal v e create = (.fail, "", s)) ∨
    (((s.shm phyId).isSome || create) = true ∧
      s.shmApplyVnpu phyId dieId hbmTotal v e create =
        (.success, (s.shmOf phyId dieId).shmId,
          { s with shm :=
              update s.shm phyId (some (s.shmAdded phyId dieId hbmTotal v e)) })) := by
  have hrange : ¬(phyId < 0 ∨ (maxNpuPerNode : Int) ≤ phyId) := by omega
  have hbit : ∀ st, s.shmOf phyId dieId = st → (st.initState hbmTotal).bitmapTest v = false := by
    rintro st rfl
    rw [bitmapTest_eq, findEntry_initState, shmOf_findEntry, hfree]
    rfl
  unfold shmApplyVnpu getOrCreateShm shmAdded
  simp only [hrange, if_false]
  cases hs : s.shm phyId with
  | some st =>
    have hst : s.shmOf phyId dieId = st := by simp [shmOf, hs]
    right
    simp only [hst, hbit st hst, addEntry_of_free hv (hbit st hst), Option.isSome_some,
      Bool.true_or, Bool.false_eq_true, if_false, and_self]
  | none =>
    have hst : s.shmOf phyId dieId = ShmState.create dieId := by simp [shmOf, hs]
    cases create with
    | false => exact .inl ⟨rfl, rfl⟩
    | true =>
      right
      simp only [hst, hbit _ hst, addEntry_of_free hv (hbit _ hst), Option.isSome_none,
        Bool.false_or, Bool.false_eq_true, if_true, if_false, update_idem, and_self]

theorem findEntry_shmAdded {dieId : String} {hbmTotal : UInt64} (hv : v < maxVnpuPerDie)
    (hfree : s.liveEntry phyId v = none) (w : Nat) :
    (s.shmAdded phyId dieId hbmTotal v e).findEntry w =
      if w = v then some e else s.liveEntry phyId w := by
  have hbit : ((s.shmOf phyId dieId).initState hbmTotal).bitmapTest v = false := by
    rw [bitmapTest_eq, findEntry_initState, shmOf_findEntry, hfree]
    rfl
  rw [shmAdded, findEntry_addEntry hv hbit, findEntry_initState, shmOf_findEntry]

end Allocator

/-! ### The rollback log -/

variable [DecidableEq F]

theorem rollbackLogRollback_snd (cfg : NodeConfig F) (s : Allocator F) (log : List RollbackStep)
    (unlink : Bool) (save : Status) :
    (rollbackLogRollback cfg s log unlink save).2 =
      log.reverse.foldl (fun s step => (undoStep cfg s unlink save step).2) s := by
  have key : ∀ (steps : List RollbackStep) (ok : Bool) (s : Allocator F),
      (steps.foldl (fun acc step => (acc.1 && (undoStep cfg acc.2 unlink save step).1,
        (undoStep cfg acc.2 unlink save step).2)) (ok, s)).2 =
      steps.foldl (fun s step => (undoStep cfg s unlink save step).2) s := by
    intro steps
    induction steps with
    | nil => intro ok s; rfl
    | cons step steps ih => intro ok s; exact ih _ _
  exact key log.reverse true s

/-- The last step of the log is undone first. -/
theorem rollbackLogRollback_concat (cfg : NodeConfig F) (s : Allocator F) (log : List RollbackStep)
    (step : RollbackStep) (unlink : Bool) (save : Status) :
    (rollbackLogRollback cfg s (log ++ [step]) unlink save).2 =
      (rollbackLogRollback cfg (undoStep cfg s unlink save step).2 log unlink save).2 := by
  simp [rollbackLogRollback_snd]

section

variable {cfg : NodeConfig F} {d : DieMeta} (hd : cfg.getLeaf d.phyId = some d)
include hd

theorem rollback_mark_quota (s : Allocator F) (v : Nat) (aicore : Int32) (hbm : Int64)
    (unlink : Bool) (save : Status) :
    (rollbackLogRollback cfg s
      [.markOccupied d.phyId v, .updateQuota d.phyId v aicore hbm] unlink save).2 =
    s.setLeaf d.phyId (((s.leaf d.phyId).updateQuota (-aicore) (-hbm)).markFree v).2 := by
  simp [rollbackLogRollback_snd, undoStep, hd]

theorem rollback_reserve (s : Allocator F) (v : Nat) (aicore : Int32) (hbm : Int64)
    (unlink : Bool) (save : Status) :
    (rollbackLogRollback cfg s
      [.markOccupied d.phyId v, .updateQuota d.phyId v aicore hbm, .attachPolicy d.phyId v]
      unlink save).2 =
    s.setLeaf d.phyId
      ((((s.leaf d.phyId).detachPolicy v).2.updateQuota (-aicore) (-hbm)).markFree v).2 := by
  simp [rollbackLogRollback_snd, undoStep, hd]

end

/-! ### Allocation -/

namespace Allocator

/-- The steps of an allocation get as far as adding the entry to the shared memory. -/
def addsEntry (s : Allocator F) (d : DieMeta) (ch : AllocChoices) : Bool :=
  ((s.leaf d.phyId).policyReady || ch.policyCalloc) && ((s.shm d.phyId).isSome || ch.shmCreate)

/-- The steps of an allocation get as far as saving the checkpoint. -/
def stepsSave (s : Allocator F) (a : Allocation) (d : DieMeta) (ch : AllocChoices) : Bool :=
  s.addsEntry d ch && ch.configWrite == .done && s.registry.accepts a ch.registryMalloc

def shmApplied (cfg : NodeConfig F) (s : Allocator F) (a : Allocation) (d : DieMeta) : ShmState :=
  s.shmAdded d.phyId d.dieId d.totalBytes a.vnpuId (buildShmEntry a (cfg.ratio d.phyId).enabled)

/-- The shared memory after a failed allocation: as before, or with the entry added and removed
again. -/
def ShmUndone (cfg : NodeConfig F) (s : Allocator F) (a : Allocation) (d : DieMeta)
    (ch : AllocChoices) (s' : Allocator F) : Prop :=
  s'.shm = s.shm ∨ s.addsEntry d ch = true ∧
    s'.shm = update s.shm d.phyId (some ((s.shmApplied cfg a d).removeEntry a.vnpuId).2)

/-- What a failed allocation leaves: leaves and vNPUs are those of before, except that the
array of policies stays allocated; a die may have got its (empty) shared memory; only the
configuration file of the request may differ. -/
structure Undone (cfg : NodeConfig F) (s : Allocator F) (a : Allocation) (d : DieMeta)
    (ch : AllocChoices) (s' : Allocator F) : Prop where
  leaf : ∀ phyId, ∃ b, s'.leaf phyId = { s.leaf phyId with policyReady := b }
  shm : ShmUndone cfg s a d ch s'
  live : ∀ phyId v, s'.liveEntry phyId v = s.liveEntry phyId v
  shmIds : ∀ G : String → Prop, G d.dieId → ShmNamed G s → ShmNamed G s'
  files : ∀ g, g ≠ cfg.configFile a.podUid a.containerName → s'.files g = s.files g

/-- What a granted allocation changes. -/
structure Granted (cfg : NodeConfig F) (s : Allocator F) (a : Allocation) (d : DieMeta)
    (s' : Allocator F) : Prop where
  leaf : s'.leaf = update s.leaf d.phyId
    ((s.leaf d.phyId).reserve a.vnpuId a.schedPolicy a.vnpuPriority (-a.aicoreQuota)
      (-a.hbmQuota.toInt64))
  live : ∀ phyId v, s'.liveEntry phyId v =
    if phyId = d.phyId ∧ v = a.vnpuId then some (buildShmEntry a (cfg.ratio d.phyId).enabled)
    else s.liveEntry phyId v
  shmIds : ∀ G : String → Prop, G d.dieId → ShmNamed G s → ShmNamed G s'
  registry : s'.registry.entries = s.registry.entries ++ [a]

section

variable {cfg : NodeConfig F} {s : Allocator F} {a : Allocation} {d : DieMeta} {t : Allocator F}

omit [DecidableEq F] in
theorem vnpuId_lt (hfree : (s.leaf d.phyId).isFree a.vnpuId = true) :
    a.vnpuId < maxVnpuPerDie := by
  have := lt_of_isFree hfree
  unfold maxVnpuPerDie
  omega

omit [DecidableEq F] in
/-- An entry that is added and removed again is not found, and nothing else has changed for a
reader of the bitmap. -/
theorem ShmUndone.spec {ch : AllocChoices} (h : ShmUndone cfg s a d ch t)
    (hv : a.vnpuId < maxVnpuPerDie) (hlive : s.liveEntry d.phyId a.vnpuId = none) :
    (∀ phyId v, t.liveEntry phyId v = s.liveEntry phyId v) ∧
      ∀ G : String → Prop, G d.dieId → ShmNamed G s → ShmNamed G t := by
  rcases h with hsame | ⟨-, hshm⟩
  · exact ⟨fun _ _ => by rw [liveEntry, hsame, liveEntry], fun _ _ h => h.congr hsame⟩
  · constructor
    · intro phyId w
      rw [liveEntry_setShm hshm, findEntry_removeEntry]
      by_cases hp : phyId = d.phyId
      · subst hp
        rw [if_pos rfl]
        by_cases hw : w = a.vnpuId
        · rw [if_pos hw, hw, hlive]
        · rw [if_neg hw, shmApplied, findEntry_shmAdded hv hlive, if_neg hw]
      · rw [if_neg hp]
    · intro G hd h
      apply h.setShm hshm
      rw [removeEntry_shmId, shmApplied, shmAdded, addEntry_shmId]
      exact h.shmOf hd

/-- Undoing the three steps on the leaf, from a state that otherwise agrees with the first. -/
theorem undone_rollback_reserve (hd : cfg.getLeaf d.phyId = some d)
    (hfree : (s.leaf d.phyId).isFree a.vnpuId = true)
    (hid : a.vnpuId ∉ (s.leaf d.phyId).policyIds) (hlive : s.liveEntry d.phyId a.vnpuId = none)
    {aicore : Int32} {hbm : Int64} {ch : AllocChoices}
    (hleaf : t.leaf = update s.leaf d.phyId
      ((s.leaf d.phyId).reserve a.vnpuId a.schedPolicy a.vnpuPriority aicore hbm))
    (hshm : ShmUndone cfg s a d ch t)
    (hfiles : ∀ g, g ≠ cfg.configFile a.podUid a.containerName → t.files g = s.files g) :
    let t' := (rollbackLogRollback cfg t
      [.markOccupied d.phyId a.vnpuId, .updateQuota d.phyId a.vnpuId aicore hbm,
        .attachPolicy d.phyId a.vnpuId] ch.unlink ch.save).2
    Undone cfg s a d ch t' ∧ t'.registry = t.registry := by
  intro t'
  simp only [t']
  rw [rollback_reserve hd]
  have hl : t.leaf d.phyId =
      (s.leaf d.phyId).reserve a.vnpuId a.schedPolicy a.vnpuPriority aicore hbm := by
    simp [hleaf]
  rw [hl, undo_reserve hfree hid]
  obtain ⟨hlive', hids⟩ := hshm.spec (vnpuId_lt hfree) hlive
  refine ⟨⟨fun phyId => ?_, hshm, hlive', hids, hfiles⟩, rfl⟩
  by_cases hp : phyId = d.phyId
  · subst hp
    exact ⟨true, by simp⟩
  · exact ⟨(s.leaf phyId).policyReady, by simp [setLeaf, hleaf, hp]⟩

variable {shmId : String}

/-- Undoing the shared-memory step removes the entry that was added. -/
theorem undo_createShm (hphy : 0 ≤ d.phyId) (hv : a.vnpuId < maxVnpuPerDie) (hshmId : shmId ≠ "")
    (ht : t.shm = update s.shm d.phyId (some (s.shmApplied cfg a d))) (unlink : Bool)
    (save : Status) :
    (undoStep cfg t unlink save (.createShm d.phyId a.vnpuId shmId)).2 =
      { t with
        shm := update s.shm d.phyId (some ((s.shmApplied cfg a d).removeEntry a.vnpuId).2) } := by
  have h₁ : ¬ d.phyId < 0 := by omega
  have h₂ : ¬ maxVnpuPerDie ≤ a.vnpuId := by omega
  simp only [undoStep, hshmId, if_false, shmRemoveEntry, h₁, h₂, ht, update_self, update_idem]

private def leafLog (a : Allocation) (d : DieMeta) : List RollbackStep :=
  [.markOccupied d.phyId a.vnpuId,
    .updateQuota d.phyId a.vnpuId (-a.aicoreQuota) (-a.hbmQuota.toInt64),
    .attachPolicy d.phyId a.vnpuId]

private def charged (s : Allocator F) (a : Allocation) (d : DieMeta) : Allocator F :=
  s.setLeaf d.phyId ((s.leaf d.phyId).reserve a.vnpuId a.schedPolicy a.vnpuPriority
    (-a.aicoreQuota) (-a.hbmQuota.toInt64))

/-- The steps after the leaf has been changed, from the state `s₃` they start in. -/
private def laterSteps (cfg : NodeConfig F) (s₃ : Allocator F) (a : Allocation) (d : DieMeta)
    (ch : AllocChoices) : AllocResponse × Allocator F :=
  let (status₄, shmId, s₄) := s₃.shmApplyVnpu d.phyId a.dieId d.totalBytes a.vnpuId
    (buildShmEntry a (cfg.ratio d.phyId).enabled) ch.shmCreate
  if status₄ ≠ .success then
    (stepError a status₄ .shmApply,
      (rollbackLogRollback cfg s₄ (leafLog a d) ch.unlink ch.save).2)
  else
  let log₄ := leafLog a d ++ [.createShm d.phyId a.vnpuId shmId]
  let a' := { a with shmId := shmId }
  let (status₅, files) := writeConfig s₄.files (cfg.configFile a.podUid a.containerName)
    (generateConfigContent a'.config) ch.configWrite
  let s₅ := { s₄ with files := files }
  if status₅ ≠ .success then
    (stepError a status₅ .writeConfig, (rollbackLogRollback cfg s₅ log₄ ch.unlink ch.save).2)
  else
  let log₅ := log₄ ++ [.writeConfig d.phyId a.vnpuId a.podUid a.containerName]
  let (status₆, registry) := s₅.registry.register a' ch.registryMalloc ch.save
  let s₆ := { s₅ with registry := registry }
  if status₆ ≠ .success then
    (stepError a status₆ .register, (rollbackLogRollback cfg s₆ log₅ ch.unlink ch.save).2)
  else ({ result := .success, errorMsg := "", grant := some a' }, s₆)

private theorem allocateSteps_eq (hd : cfg.getLeaf d.phyId = some d)
    (hfree : (s.leaf d.phyId).isFree a.vnpuId = true) (ch : AllocChoices) :
    s.allocateSteps cfg a d ch =
      if ((s.leaf d.phyId).policyReady || ch.policyCalloc) = false then
        (stepError a .fail .attachPolicy, s)
      else laterSteps cfg (s.charged a d) a d ch := by
  have hv := lt_of_isFree hfree
  have hmark : ((s.leaf d.phyId).markOccupied a.vnpuId).1 = .success := by
    rw [markOccupied_of_isFree hfree]
  have hready : ((s.leaf d.phyId).markOccupied a.vnpuId).2.policyReady
      = (s.leaf d.phyId).policyReady := by
    rw [markOccupied_of_isFree hfree]
  unfold allocateSteps
  simp only [hmark, setLeaf_leaf_self, setLeaf_setLeaf, ne_eq, not_true_eq_false, if_false]
  rcases attachPolicy_cases
      (l := ((s.leaf d.phyId).markOccupied a.vnpuId).2.updateQuota (-a.aicoreQuota)
        (-a.hbmQuota.toInt64)) hv a.schedPolicy a.vnpuPriority ch.policyCalloc
    with ⟨hno, hattach⟩ | ⟨hyes, hattach⟩
  · rw [updateQuota_policyReady, hready] at hno
    have hlog : ∀ step step' : RollbackStep,
        rollbackLogAppend (rollbackLogAppend [] step) step' = [step, step'] := fun _ _ => rfl
    simp only [hattach, hno, hlog, rollback_mark_quota hd, setLeaf_leaf_self, setLeaf_setLeaf,
      undo_mark_quota hfree, setLeaf_eq_self, reduceCtorEq, not_false_eq_true, if_true]
  · rw [updateQuota_policyReady, hready] at hyes
    simp only [hattach, hyes, Bool.true_eq_false, if_false, not_true_eq_false]
    rfl

variable (cfg) in
/-- Undoing the configuration step can only touch the file of the request. -/
private theorem undo_writeConfig (t : Allocator F) (phyId : Int) (v : Nat) (pod container : String)
    (unlink : Bool) (save : Status) :
    ∃ files, (undoStep cfg t unlink save (.writeConfig phyId v pod container)).2
        = { t with files := files } ∧
      ∀ g, g ≠ cfg.configFile pod container → files g = t.files g := by
  simp only [undoStep]
  split
  · exact ⟨t.files, rfl, fun _ _ => rfl⟩
  · exact ⟨_, rfl, fun g hg => deleteConfig_of_ne hg⟩

section

variable (hd : cfg.getLeaf d.phyId = some d) (hphy : 0 ≤ d.phyId ∧ d.phyId < maxNpuPerNode)
  (hfree : (s.leaf d.phyId).isFree a.vnpuId = true)
  (hid : a.vnpuId ∉ (s.leaf d.phyId).policyIds) (hlive : s.liveEntry d.phyId a.vnpuId = none)
include hd hphy hfree hid hlive

/-- A state in which the leaf and the shared memory have been changed for the allocation,
and no file but that of the request. -/
private structure Applied (cfg : NodeConfig F) (s : Allocator F) (a : Allocation) (d : DieMeta)
    (t : Allocator F) : Prop where
  leaf : t.leaf = update s.leaf d.phyId
    ((s.leaf d.phyId).reserve a.vnpuId a.schedPolicy a.vnpuPriority (-a.aicoreQuota)
      (-a.hbmQuota.toInt64))
  shm : t.shm = update s.shm d.phyId (some (s.shmApplied cfg a d))
  files : ∀ g, g ≠ cfg.configFile a.podUid a.containerName → t.files g = s.files g

/-- Undoing the steps on the leaf and on the shared memory. -/
private theorem undone_rollback_shm (ht : Applied cfg s a d t) (hshmId : shmId ≠ "")
    {ch : AllocChoices} (hadds : s.addsEntry d ch = true) :
    let t' := (rollbackLogRollback cfg t
      (leafLog a d ++ [.createShm d.phyId a.vnpuId shmId]) ch.unlink ch.save).2
    Undone cfg s a d ch t' ∧ t'.registry = t.registry := by
  intro t'
  simp only [t']
  rw [rollbackLogRollback_concat, undo_createShm hphy.1 (vnpuId_lt hfree) hshmId ht.shm]
  exact undone_rollback_reserve hd hfree hid hlive ht.leaf (.inr ⟨hadds, rfl⟩) ht.files

/-- Undoing also the configuration step. -/
private theorem undone_rollback_config (ht : Applied cfg s a d t) (hshmId : shmId ≠ "")
    {ch : AllocChoices} (hadds : s.addsEntry d ch = true) :
    let t' := (rollbackLogRollback cfg t (leafLog a d ++ [.createShm d.phyId a.vnpuId shmId] ++
      [.writeConfig d.phyId a.vnpuId a.podUid a.containerName]) ch.unlink ch.save).2
    Undone cfg s a d ch t' ∧ t'.registry = t.registry := by
  obtain ⟨files, hfiles, hoff⟩ := undo_writeConfig cfg t d.phyId a.vnpuId a.podUid
    a.containerName ch.unlink ch.save
  intro t'
  simp only [t']
  rw [rollbackLogRollback_concat, hfiles]
  exact undone_rollback_shm hd hphy hfree hid hlive (t := { t with files := files })
    ⟨ht.leaf, ht.shm, fun g hg => (hoff g hg).trans (ht.files g hg)⟩ hshmId hadds

omit [DecidableEq F] hd hphy hid in
private theorem granted_of_applied (ht : Applied cfg s a d t)
    (hreg : t.registry.entries = s.registry.entries ++ [{ a with shmId := shmId }]) :
    Granted cfg s { a with shmId := shmId } d t :=
  { leaf := ht.leaf
    live := by
      intro phyId v
      rw [liveEntry_setShm ht.shm, shmApplied, findEntry_shmAdded (vnpuId_lt hfree) hlive]
      by_cases hp : phyId = d.phyId
      · simp only [hp, true_and, if_true]
        rfl
      · simp [hp]
    shmIds := by
      intro G hd h
      apply h.setShm ht.shm
      rw [shmApplied, shmAdded, addEntry_shmId]
      exact h.shmOf hd
    registry := hreg }

private def withShm (s : Allocator F) (a : Allocation) (d : DieMeta) : Allocation :=
  { a with shmId := (s.shmOf d.phyId d.dieId).shmId }

private def configWrite (cfg : NodeConfig F) (s : Allocator F) (a : Allocation) (d : DieMeta)
    (w : WriteOutcome) : Status × (F → Option String) :=
  writeConfig s.files (cfg.configFile a.podUid a.containerName)
    (generateConfigContent (s.withShm a d).config) w

/-- The state after all steps before the registration, with a given registry. -/
private def applied (cfg : NodeConfig F) (s : Allocator F) (a : Allocation) (d : DieMeta)
    (w : WriteOutcome) (registry : Registry) : Allocator F :=
  { s.charged a d with
    shm := update s.shm d.phyId (some (s.shmApplied cfg a d))
    files := (s.configWrite cfg a d w).2
    registry := registry }

omit hd hphy hfree hid hlive in
private theorem applied_spec (w : WriteOutcome) (registry : Registry) :
    Applied cfg s a d (s.applied cfg a d w registry) :=
  ⟨rfl, rfl, fun _ hg => writeConfig_of_ne hg⟩

omit hd hid in
/-- The steps after the leaf has been changed, in terms of their outcomes. -/
private theorem laterSteps_eq (hdie : a.dieId = d.dieId) (ch : AllocChoices) :
    let log := leafLog a d ++ [.createShm d.phyId a.vnpuId (s.withShm a d).shmId]
    let write := s.configWrite cfg a d ch.configWrite
    let register := s.registry.register (s.withShm a d) ch.registryMalloc ch.save
    laterSteps cfg (s.charged a d) a d ch =
      if ((s.shm d.phyId).isSome || ch.shmCreate) = false then
        (stepError a .fail .shmApply,
          (rollbackLogRollback cfg (s.charged a d) (leafLog a d) ch.unlink ch.save).2)
      else if write.1 ≠ .success then
        (stepError a write.1 .writeConfig,
          (rollbackLogRollback cfg (s.applied cfg a d ch.configWrite s.registry) log
            ch.unlink ch.save).2)
      else if register.1 ≠ .success then
        (stepError a register.1 .register,
          (rollbackLogRollback cfg (s.applied cfg a d ch.configWrite register.2)
            (log ++ [.writeConfig d.phyId a.vnpuId a.podUid a.containerName])
            ch.unlink ch.save).2)
      else ({ result := .success, errorMsg := "", grant := some (s.withShm a d) },
        s.applied cfg a d ch.configWrite register.2) := by
  intro log write register
  unfold laterSteps
  rcases shmApplyVnpu_cases (s := s.charged a d) hphy (vnpuId_lt hfree) hlive a.dieId d.totalBytes
      (buildShmEntry a (cfg.ratio d.phyId).enabled) ch.shmCreate
    with ⟨hno, happly⟩ | ⟨hyes, happly⟩
  · rw [if_pos (show ((s.shm d.phyId).isSome || ch.shmCreate) = false from hno), happly]
    simp only [ne_eq, reduceCtorEq, not_false_eq_true, if_true]
  · have hcreate : ¬ ((s.shm d.phyId).isSome || ch.shmCreate) = false := by
      rwa [Bool.not_eq_false]
    have happly' : (s.charged a d).shmApplyVnpu d.phyId a.dieId d.totalBytes a.vnpuId
        (buildShmEntry a (cfg.ratio d.phyId).enabled) ch.shmCreate =
        (.success, (s.withShm a d).shmId,
          { s.charged a d with
            shm := update s.shm d.phyId (some (s.shmApplied cfg a d)) }) := by
      rw [happly, hdie]; rfl
    rw [if_neg hcreate, happly']
    rfl

/-- The three ways an allocation can end, given a free vNPU id that neither the policies
nor the bitmap of the die still mention and shared memory with a non-empty id. -/
theorem allocateSteps_spec
    (hshm : ShmNamed (· ≠ "") s) (hdie : a.dieId = d.dieId)
    (ch : AllocChoices) :
    let r := s.allocateSteps cfg a d ch
    (s.stepsSave a d ch = false ∧ r.1.result ≠ .success ∧ Undone cfg s a d ch r.2 ∧
      r.2.registry = s.registry) ∨
    (s.stepsSave a d ch = true ∧ ch.save ≠ .success ∧ r.1.result ≠ .success ∧
      Undone cfg s a d ch r.2 ∧
      ∃ shmId, r.2.registry.entries = s.registry.entries ++ [{ a with shmId := shmId }]) ∨
    (s.stepsSave a d ch = true ∧ ch.save = .success ∧ r.1.result = .success ∧
      ∃ shmId, Granted cfg s { a with shmId := shmId } d r.2) := by
  intro r
  have hr : r = _ := allocateSteps_eq hd hfree ch
  by_cases hready : ((s.leaf d.phyId).policyReady || ch.policyCalloc) = false
  · rw [if_pos hready] at hr
    rw [hr]
    exact .inl ⟨by simp [stepsSave, addsEntry, hready], by simp [stepError, error],
      ⟨fun p => ⟨(s.leaf p).policyReady, rfl⟩, .inl rfl, fun _ _ => rfl,
        fun _ _ h => h, fun _ _ => rfl⟩, rfl⟩
  rw [if_neg hready, laterSteps_eq hphy hfree hlive hdie] at hr
  rw [Bool.not_eq_false] at hready
  have hshmId : (s.withShm a d).shmId ≠ "" := hshm.shmOf d.dieId_ne
  by_cases hno : ((s.shm d.phyId).isSome || ch.shmCreate) = false
  · rw [if_pos hno] at hr
    rw [hr]
    obtain ⟨hundone, hreg⟩ := undone_rollback_reserve (t := s.charged a d) hd hfree hid hlive
      rfl (.inl rfl) (fun _ _ => rfl)
    exact .inl ⟨by simp [stepsSave, addsEntry, hno], by simp [stepError, error], hundone, hreg⟩
  rw [if_neg hno] at hr
  rw [Bool.not_eq_false] at hno
  have hadds : s.addsEntry d ch = true := by simp [addsEntry, hready, hno]
  by_cases hwrite : ch.configWrite = .done
  swap
  · have hfail : (s.configWrite cfg a d ch.configWrite).1 = .fail := by
      cases hw : ch.configWrite with
      | done => exact absurd hw hwrite
      | _ => rfl
    rw [if_pos (by rw [hfail]; simp), hfail] at hr
    rw [hr]
    obtain ⟨hundone, hreg⟩ := undone_rollback_shm hd hphy hfree hid hlive
      (applied_spec ch.configWrite s.registry) hshmId hadds
    exact .inl ⟨by simp [stepsSave, hwrite], by simp [stepError, error], hundone, hreg⟩
  rw [if_neg (by simp [configWrite, hwrite, writeConfig])] at hr
  rcases Registry.register_cases s.registry (s.withShm a d) ch.registryMalloc ch.save with
    ⟨hrefuse, hstatus, hsame⟩ | ⟨haccept, hstatus, happend⟩
  · rw [if_pos hstatus, hsame] at hr
    rw [hr]
    obtain ⟨hundone, hreg⟩ := undone_rollback_config hd hphy hfree hid hlive
      (applied_spec ch.configWrite s.registry) hshmId hadds
    have hrefuse' : s.registry.accepts a ch.registryMalloc = false := hrefuse
    exact .inl ⟨by simp [stepsSave, hrefuse'], by simpa [stepError, error] using hstatus,
      hundone, hreg⟩
  have hsave : s.stepsSave a d ch = true := by
    have haccept' : s.registry.accepts a ch.registryMalloc = true := haccept
    simp [stepsSave, hadds, hwrite, haccept']
  by_cases hok : ch.save = .success
  · rw [if_neg (by rw [hstatus, hok]; simp)] at hr
    rw [hr]
    exact .inr (.inr ⟨hsave, hok, rfl, _,
      granted_of_applied hfree hlive (applied_spec ch.configWrite _) happend⟩)
  · rw [if_pos (by rw [hstatus]; exact hok), hstatus] at hr
    rw [hr]
    obtain ⟨hundone, hreg⟩ := undone_rollback_config hd hphy hfree hid hlive
      (applied_spec ch.configWrite
        (s.registry.register (s.withShm a d) ch.registryMalloc ch.save).2) hshmId hadds
    exact .inr (.inl ⟨hsave, hok, by simpa [stepError, error] using hok, hundone, _,
      (congrArg Registry.entries hreg).trans happend⟩)

end

end

end Allocator

end UbsVirt.Enpu
