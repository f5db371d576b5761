import UbsVirt.Enpu.Ledger

/-!
# A failed allocation changes nothing

Runs here also contain `npu_allocator_recover` and `npu_allocator_release_external_vnpu`,
start from a fresh tree with any registry, and may fail anywhere. What the rollback of
an allocation relies on is that the stores are tidy (`Tidy`): no policy entry and no
shared-memory entry is left over for a free id, and every shared memory has a name. Calls
keep the stores tidy, except for a recovery on a tree that already holds the recovered
vNPUs (`Recoverable`). Source: `enpu-manager/core/src/npu_allocator.c:559-1064`,
`rollback_log.c`.
-/

namespace UbsVirt.Enpu

open Run Function List LeafState

namespace LeafState

/-- At most one policy entry per id, and none for a free id. -/
structure Tidy (l : LeafState) : Prop where
  nodup : l.policyIds.Nodup
  occupied : ∀ v ∈ l.policyIds, l.isFree v = false

variable {l l' : LeafState} {v : Nat}

theorem Tidy.congr (h : l.Tidy) (hl : ∃ b, l' = { l with policyReady := b }) : l'.Tidy := by
  obtain ⟨b, rfl⟩ := hl
  exact ⟨h.nodup, h.occupied⟩

theorem Tidy.notMem (h : l.Tidy) (hfree : l.isFree v = true) : v ∉ l.policyIds := by
  intro hmem
  have := h.occupied v hmem
  rw [hfree] at this
  cases this

theorem isFree_eq_false_of_le (hv : 64 ≤ v) : l.isFree v = false := by
  cases h : l.isFree v with
  | false => rfl
  | true =>
    have := lt_of_isFree h
    omega

/-- Clearing the bit of an id keeps every other id. -/
theorem isFree_false_of_and_not (h : l'.vnpuMask = l.vnpuMask &&& ~~~bitMask v) (w : Nat) :
    l'.isFree w = false ↔ l.isFree w = false ∨ (w = v ∧ v < 64) := by
  by_cases hw : w < 64
  · rw [isFree_and_not h hw]
    by_cases hwv : w = v
    · subst hwv; simp [hw]
    · simp [hwv]
  · simp [isFree_eq_false_of_le (l := l) (Nat.le_of_not_lt hw),
      isFree_eq_false_of_le (l := l') (Nat.le_of_not_lt hw)]

/-- Marking and charging a free id, with or without its policy entry, leaves the leaf tidy
and only this id changed. -/
theorem Tidy.of_marked (h : l.Tidy) (hfree : l.isFree v = true)
    (hmask : l'.vnpuMask = l.vnpuMask &&& ~~~bitMask v)
    (hids : l'.policyIds = l.policyIds ∨ l'.policyIds = l.policyIds ++ [v]) : l'.Tidy := by
  have hv := lt_of_isFree hfree
  have hocc : ∀ w ∈ l.policyIds, l'.isFree w = false := fun w hw =>
    (isFree_false_of_and_not hmask w).mpr (.inl (h.occupied w hw))
  rcases hids with hids | hids
  · constructor
    · rw [hids]; exact h.nodup
    · rwa [hids]
  · constructor
    · rw [hids]
      exact nodup_append.mpr ⟨h.nodup, nodup_singleton v, fun w hw x hx hwx => by
        rw [mem_singleton] at hx
        subst hx hwx
        exact h.notMem hfree hw⟩
    · rw [hids]
      intro w hw
      rcases mem_append.mp hw with hw | hw
      · exact hocc w hw
      · rw [mem_singleton] at hw
        exact (isFree_false_of_and_not hmask w).mpr (.inr ⟨hw, hv⟩)

theorem appendPolicy_policyIds (l : LeafState) (v : Nat) (p : SchedPolicy) (q : VnpuPriority) :
    (l.appendPolicy v p q).policyIds = l.policyIds ∨
      (l.appendPolicy v p q).policyIds = l.policyIds ++ [v] := by
  unfold appendPolicy policyIds
  split
  · exact .inr (by simp)
  · exact .inl rfl

theorem appendPolicy_vnpuMask (l : LeafState) (v : Nat) (p : SchedPolicy) (q : VnpuPriority) :
    (l.appendPolicy v p q).vnpuMask = l.vnpuMask := by
  unfold appendPolicy
  split <;> rfl

theorem reserve_vnpuMask (hfree : l.isFree v = true) (p : SchedPolicy) (q : VnpuPriority)
    (aicore : Int32) (hbm : Int64) :
    (l.reserve v p q aicore hbm).vnpuMask = l.vnpuMask &&& ~~~bitMask v := by
  rw [reserve, appendPolicy_vnpuMask, markOccupied_of_isFree hfree]
  rfl

theorem Tidy.reserve (h : l.Tidy) (hfree : l.isFree v = true) (p : SchedPolicy) (q : VnpuPriority)
    (aicore : Int32) (hbm : Int64) : (l.reserve v p q aicore hbm).Tidy := by
  refine h.of_marked hfree (reserve_vnpuMask hfree p q aicore hbm) ?_
  have hids := appendPolicy_policyIds ((l.markOccupied v).2.updateQuota aicore hbm) v p q
  rw [markOccupied_of_isFree hfree] at hids
  rwa [LeafState.reserve, markOccupied_of_isFree hfree]

/-- The mask after a release: at most the bit of the released id is set. -/
theorem unreserve_vnpuMask (l : LeafState) (v : Nat) (aicore : Int32) (hbm : Int64) :
    (l.unreserve v aicore hbm).vnpuMask = l.vnpuMask ∨
      ((l.unreserve v aicore hbm).vnpuMask = l.vnpuMask ||| bitMask v ∧ l.isFree v = false) := by
  by_cases hv : v < 64
  · cases hfree : l.isFree v with
    | true => exact .inl (by simp [unreserve, hfree])
    | false => exact .inr ⟨(unreserve_fields aicore hbm hv hfree).1, rfl⟩
  · -- an id outside the mask has no bit to set
    have hz : bitMask v = 0#64 := by
      apply BitVec.eq_of_getLsbD_eq
      intro w hw
      have : w ≠ v := by omega
      simp [getLsbD_bitMask, this]
    left
    have hdetach : (l.detachPolicy v).2.vnpuMask = l.vnpuMask := by
      unfold detachPolicy
      split
      · rfl
      · split <;> rfl
    have hmark : ∀ m : LeafState, (m.markFree v).2.vnpuMask = m.vnpuMask := by
      intro m
      unfold markFree
      split
      · rfl
      · split
        · rfl
        · simp [hz]
    unfold unreserve
    split
    · rfl
    · rwa [hmark]

theorem unreserve_policyIds (l : LeafState) (v : Nat) (aicore : Int32) (hbm : Int64) :
    (l.unreserve v aicore hbm).policyIds.Sublist l.policyIds ∧
      (v < 64 → l.isFree v = false → l.policyIds.Nodup →
        v ∉ (l.unreserve v aicore hbm).policyIds) := by
  constructor
  · have hdetach : (l.detachPolicy v).2.policyIds.Sublist l.policyIds := by
      unfold detachPolicy
      split
      · exact List.Sublist.refl _
      · split
        · exact eraseP_sublist.map _
        · exact List.Sublist.refl _
    have hmark : ∀ m : LeafState, (m.markFree v).2.policyIds = m.policyIds := by
      intro m
      unfold markFree
      split
      · rfl
      · split <;> rfl
    unfold unreserve
    split
    · exact List.Sublist.refl _
    · rwa [hmark]
  · intro hv hocc hnd
    rw [policyIds, (unreserve_fields aicore hbm hv hocc).2.2.2]
    intro hmem
    obtain ⟨e, he, hev⟩ := mem_map.mp hmem
    -- the id is still there after its first entry went, so it was there twice
    have hfind : ∃ e₀, l.policyEntries.find? (·.vnpuId == v) = some e₀ := by
      rw [← Option.isSome_iff_exists, find?_isSome]
      exact ⟨e, mem_of_mem_eraseP he, by simp [hev]⟩
    obtain ⟨e₀, he₀⟩ := hfind
    have hperm := (perm_cons_eraseP he₀).map (·.vnpuId)
    have hnd' := hperm.nodup_iff.mp hnd
    rw [map_cons, nodup_cons] at hnd'
    have hid : e₀.vnpuId = v := by simpa using find?_some he₀
    rw [hid] at hnd'
    exact hnd'.1 hmem

/-- Releasing an id frees at most this id. -/
theorem isFree_unreserve {w : Nat} (hw : w ≠ v) (aicore : Int32) (hbm : Int64) :
    (l.unreserve v aicore hbm).isFree w = l.isFree w := by
  rcases unreserve_vnpuMask l v aicore hbm with hmask | ⟨hmask, -⟩
  · exact isFree_congr hmask w
  · by_cases hlt : w < 64
    · rw [isFree_or hmask hlt]
      simp [hw]
    · rw [isFree_eq_false_of_le (Nat.le_of_not_lt hlt), isFree_eq_false_of_le (Nat.le_of_not_lt hlt)]

theorem Tidy.unreserve (h : l.Tidy) (v : Nat) (aicore : Int32) (hbm : Int64) :
    (l.unreserve v aicore hbm).Tidy := by
  obtain ⟨hsub, hgone⟩ := unreserve_policyIds l v aicore hbm
  refine ⟨hsub.nodup h.nodup, fun w hw => ?_⟩
  have hocc := h.occupied w (hsub.subset hw)
  by_cases hwv : w = v
  · subst hwv
    by_cases hlt : w < 64
    · exact absurd hw (hgone hlt hocc h.nodup)
    · exact isFree_eq_false_of_le (Nat.le_of_not_lt hlt)
  · rwa [isFree_unreserve hwv]

end LeafState

/-! ### Tidy stores -/

namespace Allocator

variable {F : Type}

/-- Nothing is left over for a free id, and every shared memory has a name. -/
structure Tidy (s : Allocator F) : Prop where
  policies : ∀ phyId, (s.leaf phyId).Tidy
  live : ∀ phyId v e, s.liveEntry phyId v = some e →
    0 ≤ phyId ∧ phyId < maxNpuPerNode ∧ (s.leaf phyId).isFree v = false
  shmIds : ShmNamed (· ≠ "") s

theorem tidy_init (cfg : NodeConfig F) (registry : Registry) (pool : Tlsf.Pool)
    (files : F → Option String) : (init cfg registry pool files).Tidy where
  policies phyId := by
    have hnone : ((init cfg registry pool files).leaf phyId).policyIds = [] := by
      simp only [init]
      split <;> rfl
    constructor
    · rw [hnone]; exact nodup_nil
    · rw [hnone]; intro v hv; cases hv
  live phyId v e h := by cases h
  shmIds phyId st h := by cases h

namespace Tidy

variable {cfg : NodeConfig F} {s s' : Allocator F} {a : Allocation} {d : DieMeta}

theorem live_eq_none (h : s.Tidy) {phyId : Int} {v : Nat}
    (hfree : (s.leaf phyId).isFree v = true) : s.liveEntry phyId v = none := by
  cases hl : s.liveEntry phyId v with
  | none => rfl
  | some e =>
    have := (h.live phyId v e hl).2.2
    rw [hfree] at this
    cases this

theorem of_undone (h : s.Tidy) {ch : AllocChoices} (hu : Undone cfg s a d ch s') : s'.Tidy where
  policies phyId := (h.policies phyId).congr (hu.leaf phyId)
  live phyId v e hl := by
    rw [hu.live] at hl
    obtain ⟨h₀, h₁, hocc⟩ := h.live phyId v e hl
    obtain ⟨b, hleaf⟩ := hu.leaf phyId
    exact ⟨h₀, h₁, by rw [hleaf]; exact hocc⟩
  shmIds := hu.shmIds _ d.dieId_ne h.shmIds

/-- A granted request keeps the books tidy. -/
theorem of_granted (h : s.Tidy) (hsel : Selection cfg s a d) (hg : Granted cfg s a d s') :
    s'.Tidy where
  policies phyId := by
    rw [hg.leaf]
    by_cases hp : phyId = d.phyId
    · subst hp
      rw [update_self]
      exact (h.policies d.phyId).reserve hsel.isFree _ _ _ _
    · rw [update_of_ne hp]
      exact h.policies phyId
  live phyId v e hl := by
    rw [hg.live] at hl
    have hocc := isFree_false_of_and_not (reserve_vnpuMask hsel.isFree
      a.schedPolicy a.vnpuPriority (-a.aicoreQuota) (-a.hbmQuota.toInt64)) v
    rw [hg.leaf]
    split at hl
    · next hpv =>
      obtain ⟨rfl, rfl⟩ := hpv
      rw [update_self]
      exact ⟨hsel.inRange.1, hsel.inRange.2, hocc.mpr (.inr ⟨rfl, lt_of_isFree hsel.isFree⟩)⟩
    · obtain ⟨h₀, h₁, hold⟩ := h.live phyId v e hl
      refine ⟨h₀, h₁, ?_⟩
      by_cases hp : phyId = d.phyId
      · subst hp
        rw [update_self]
        exact hocc.mpr (.inl hold)
      · rwa [update_of_ne hp]
  shmIds := hg.shmIds _ d.dieId_ne h.shmIds

/-- A release keeps the books tidy. -/
theorem of_released (h : s.Tidy) (hrel : Released cfg s a s') : s'.Tidy := by
  have hids := hrel.shmIds _ h.shmIds
  cases hleaf : cfg.getLeaf a.phyId with
  | none =>
    have hl := hrel.leaf
    rw [hleaf] at hl
    simp only at hl
    refine ⟨by rw [hl]; exact h.policies, fun phyId v e he => ?_, hids⟩
    rw [hrel.live, hleaf, if_neg (by simp)] at he
    rw [hl]
    exact h.live phyId v e he
  | some d =>
    have hl := hrel.leaf
    rw [hleaf] at hl
    simp only at hl
    obtain ⟨-, hphy, -⟩ := cfg.getLeaf_some hleaf
    refine ⟨fun phyId => ?_, fun phyId v e he => ?_, hids⟩
    · rw [hl]
      by_cases hp : phyId = d.phyId
      · subst hp
        rw [update_self]
        exact (h.policies d.phyId).unreserve _ _ _
      · rw [update_of_ne hp]; exact h.policies phyId
    · rw [hrel.live, hleaf] at he
      split at he
      · cases he
      · next hne =>
        obtain ⟨h₀, h₁, hocc⟩ := h.live phyId v e he
        refine ⟨h₀, h₁, ?_⟩
        rw [hl]
        by_cases hp : phyId = d.phyId
        · have hv : v ≠ a.vnpuId := by
            intro hva
            refine hne ⟨rfl, hp.trans hphy, hva, ?_, ?_⟩ <;> omega
          subst hp
          rwa [update_self, isFree_unreserve hv]
        · rwa [update_of_ne hp]

theorem releaseExternal (h : s.Tidy) (phyId : Int) (v : Nat) :
    (s.shmReleaseVnpu phyId v).2.Tidy := by
  obtain ⟨hleaf, -, -, hids⟩ := s.shmReleaseVnpu_frame phyId v
  refine ⟨by rw [hleaf]; exact h.policies, fun p w e he => ?_, hids _ h.shmIds⟩
  rw [shmReleaseVnpu_live] at he
  split at he
  · cases he
  · rw [hleaf]; exact h.live p w e he

end Tidy

variable [DecidableEq F] {cfg : NodeConfig F} {s : Allocator F}

variable (cfg) in
/-- What an allocation does when the stores are tidy. -/
theorem Tidy.allocate_outcome (h : s.Tidy) (req : AllocRequest) (ch : AllocChoices) :
    let r := s.allocate cfg req ch
    (s.selected cfg req ch = none ∧ r.1.result ≠ .success ∧ r.2 = s) ∨
    ∃ a d, s.selected cfg req ch = some (a, d) ∧ Selection cfg s a d ∧
      ((r.1.result ≠ .success ∧ Undone cfg s a d ch r.2 ∧
          (r.2.registry = s.registry ∨ (s.reachesSave cfg req ch = true ∧ ch.save ≠ .success))) ∨
        (r.1.result = .success ∧ ∃ shmId, Granted cfg s { a with shmId := shmId } d r.2)) := by
  intro r
  rcases allocate_cases cfg s req ch with hearly | ⟨a, d, hsome, hsel, hsteps⟩
  · exact .inl hearly
  right
  refine ⟨a, d, hsome, hsel, ?_⟩
  have hreach : s.reachesSave cfg req ch = s.stepsSave a d ch := by rw [reachesSave, hsome]
  have hr : r = s.allocateSteps cfg a d ch := hsteps
  have hspec := allocateSteps_spec (cfg.getLeaf_of_mem hsel.mem hsel.inRange.1) hsel.inRange
    hsel.isFree ((h.policies d.phyId).notMem hsel.isFree) (h.live_eq_none hsel.isFree)
    h.shmIds hsel.dieId ch
  rw [hreach, hr]
  rcases hspec with ⟨-, hfail, hundone, hreg⟩ | ⟨hsave, hne, hfail, hundone, -⟩ |
    ⟨-, -, hres, hgrant⟩
  · exact .inl ⟨hfail, hundone, .inl hreg⟩
  · exact .inl ⟨hfail, hundone, .inr ⟨hsave, hne⟩⟩
  · exact .inr ⟨hres, hgrant⟩

theorem Tidy.allocate (h : s.Tidy) (req : AllocRequest) (ch : AllocChoices) :
    (s.allocate cfg req ch).2.Tidy := by
  rcases h.allocate_outcome cfg req ch with ⟨-, -, hsame⟩ |
    ⟨a, d, -, hsel, ⟨-, hundone, -⟩ | ⟨-, shmId, hgrant⟩⟩
  · rwa [hsame]
  · exact h.of_undone hundone
  · exact h.of_granted (hsel.setShmId shmId) hgrant

/-! ### Recovery -/

/-- The entries that will be recovered are for different vNPUs, none of which the tree
holds already, and name their die. -/
structure Recoverable (cfg : NodeConfig F) (s : Allocator F) (entries : List Allocation) :
    Prop where
  distinct : ((entries.filter (recovers cfg)).map fun a => (a.phyId, a.vnpuId)).Nodup
  isFree : ∀ a ∈ entries, recovers cfg a = true → (s.leaf a.phyId).isFree a.vnpuId = true
  named : ∀ a ∈ entries, recovers cfg a = true → a.dieId ≠ ""

omit [DecidableEq F] in
private theorem recovered_fields {l : LeafState} {a : Allocation}
    (hfree : l.isFree a.vnpuId = true) (ch : RecoverChoices) :
    (l.recovered (a, ch)).vnpuMask = l.vnpuMask &&& ~~~LeafState.bitMask a.vnpuId ∧
      ((l.recovered (a, ch)).policyIds = l.policyIds ∨
        (l.recovered (a, ch)).policyIds = l.policyIds ++ [a.vnpuId]) := by
  unfold recovered
  rw [markOccupied_of_isFree hfree]
  rcases attachPolicy_cases (l := LeafState.updateQuota
      { l with vnpuMask := l.vnpuMask &&& ~~~bitMask a.vnpuId } (-a.aicoreQuota)
      (-a.hbmQuota.toInt64)) (lt_of_isFree hfree) a.schedPolicy a.vnpuPriority
      ch.policyCalloc with ⟨-, hattach⟩ | ⟨-, hattach⟩
  · rw [hattach]
    exact ⟨rfl, .inl rfl⟩
  · rw [hattach]
    exact ⟨appendPolicy_vnpuMask _ _ _ _, appendPolicy_policyIds _ _ _ _⟩

/-- What recovering one entry changes: its own id in the tree, and at most its own entry in
the shared memory. -/
theorem recoverOne_spec (h : s.Tidy) {a : Allocation} (ha : recovers cfg a = true)
    (hfree : (s.leaf a.phyId).isFree a.vnpuId = true) (hdie : a.dieId ≠ "") (ch : RecoverChoices) :
    (s.recoverOne cfg a ch).Tidy ∧ (s.recoverOne cfg a ch).registry = s.registry ∧
      ∀ p w, (p, w) ≠ (a.phyId, a.vnpuId) → (s.leaf p).isFree w = true →
        ((s.recoverOne cfg a ch).leaf p).isFree w = true := by
  have hv := lt_of_isFree hfree
  obtain ⟨fmask, fids⟩ := recovered_fields hfree ch
  obtain ⟨hreg, hleafs, hshm⟩ := recoverOne_cases cfg s ha ch
  have hleaf : ∀ p, (s.recoverOne cfg a ch).leaf p =
      if p = a.phyId then (s.leaf a.phyId).recovered (a, ch) else s.leaf p := by
    intro p
    rw [hleafs, update_apply]
  have hlive : ∀ p w, (s.recoverOne cfg a ch).liveEntry p w = s.liveEntry p w ∨
      (p = a.phyId ∧ w = a.vnpuId ∧ 0 ≤ a.phyId ∧ a.phyId < maxNpuPerNode) := by
    intro p w
    rcases hshm with ⟨hsame, -⟩ | ⟨hin, -, total, hshm⟩
    · simp [liveEntry, hsame]
    · rw [liveEntry_setShm hshm, findEntry_recoveredShm (by unfold maxVnpuPerDie; omega),
        shmOf_findEntry]
      simp only [hasShm, Bool.and_eq_true, decide_eq_true_eq] at hin
      by_cases hp : p = a.phyId
      · by_cases hw : w = a.vnpuId
        · exact .inr ⟨hp, hw, hin⟩
        · simp [hp, hw]
      · simp [hp]
  have hids : ShmNamed (· ≠ "") (s.recoverOne cfg a ch) := by
    rcases hshm with ⟨hsame, -⟩ | ⟨-, -, total, hshm⟩
    · exact h.shmIds.congr hsame
    · exact h.shmIds.setShm hshm (h.shmIds.shmOf hdie)
  refine ⟨⟨fun p => ?_, fun p w e he => ?_, hids⟩, hreg, fun p w hne hw => ?_⟩
  · rw [hleaf]
    split
    · exact (h.policies a.phyId).of_marked hfree fmask fids
    · exact h.policies p
  · rw [hleaf]
    rcases hlive p w with hsame | ⟨rfl, rfl, h₀, h₁⟩
    · rw [hsame] at he
      obtain ⟨h₀, h₁, hocc⟩ := h.live p w e he
      refine ⟨h₀, h₁, ?_⟩
      split
      · next hp =>
        subst hp
        exact (isFree_false_of_and_not fmask w).mpr (.inl hocc)
      · exact hocc
    · rw [if_pos rfl]
      exact ⟨h₀, h₁, (isFree_false_of_and_not fmask _).mpr (.inr ⟨rfl, hv⟩)⟩
  · rw [hleaf]
    split
    · next hp =>
      subst hp
      have hwv : w ≠ a.vnpuId := fun he => hne (by rw [he])
      rw [isFree_and_not fmask (lt_of_isFree hw)]
      simp [hw, hwv]
    · exact hw

/-- Recovering one entry leaves the rest recoverable. -/
theorem Recoverable.tail {a : Allocation} {entries : List Allocation} (h : s.Tidy)
    (hr : Recoverable cfg s (a :: entries)) (ch : RecoverChoices) :
    (s.recoverOne cfg a ch).Tidy ∧ Recoverable cfg (s.recoverOne cfg a ch) entries := by
  cases ha : recovers cfg a with
  | false =>
    rw [recoverOne_of_not_recovers ha]
    have hdistinct := hr.distinct
    rw [filter_cons_of_neg (by simp [ha])] at hdistinct
    exact ⟨h, hdistinct, fun b hb => hr.isFree b (mem_cons_of_mem _ hb),
      fun b hb => hr.named b (mem_cons_of_mem _ hb)⟩
  | true =>
    have hdistinct := hr.distinct
    rw [filter_cons_of_pos ha, map_cons, nodup_cons] at hdistinct
    obtain ⟨htidy, -, hkeep⟩ := recoverOne_spec h ha (hr.isFree a mem_cons_self ha)
      (hr.named a mem_cons_self ha) ch
    refine ⟨htidy, hdistinct.2, fun b hb hrb => ?_, fun b hb => hr.named b (mem_cons_of_mem _ hb)⟩
    refine hkeep _ _ (fun heq => ?_) (hr.isFree b (mem_cons_of_mem _ hb) hrb)
    exact hdistinct.1 (mem_map.mpr ⟨b, mem_filter.mpr ⟨hb, hrb⟩, heq⟩)

theorem Tidy.recover (h : s.Tidy) (hr : Recoverable cfg s s.registry.entries)
    (ch : Nat → RecoverChoices) : (s.recover cfg ch).Tidy := by
  have key : ∀ (es : List (Allocation × Nat)) (s : Allocator F), s.Tidy →
      Recoverable cfg s (es.map (·.1)) →
      (es.foldl (fun s a => s.recoverOne cfg a.1 (ch a.2)) s).Tidy := by
    intro es
    induction es with
    | nil => exact fun s h _ => h
    | cons e es ih =>
      intro s h hr
      obtain ⟨h', hr'⟩ := hr.tail h (ch e.2)
      exact ih _ h' hr'
  refine key _ s h ?_
  rwa [zipIdx_map_fst]

/-! ### The theorem -/

/-- The operations that change the allocator. -/
inductive Op where
  | call (c : Call)
  | releaseExternal (phyId : Int) (v : Nat)
  | recover (ch : Nat → RecoverChoices)

def opStep (cfg : NodeConfig F) (s : Allocator F) : Op → Allocator F
  | .call c => s.step cfg c
  | .releaseExternal phyId v => (s.shmReleaseVnpu phyId v).2
  | .recover ch => s.recover cfg ch

/-- A recovery only takes in vNPUs that the tree does not hold yet. -/
def RecoversOnce (cfg : NodeConfig F) (s : Allocator F) : Op → Prop
  | .recover _ => Recoverable cfg s s.registry.entries
  | _ => True

theorem Tidy.opStep (h : s.Tidy) (op : Op) (hop : RecoversOnce cfg s op) : (s.opStep cfg op).Tidy := by
  cases op with
  | call c => exact step_keeps h (fun _ _ _ => h.of_released) c fun req ch _ => h.allocate req ch
  | releaseExternal phyId v => exact h.releaseExternal phyId v
  | recover ch => exact h.recover hop ch

/-- The bitmap and the entries of a shared memory, those outside the bitmap included. -/
def table (st : ShmState) : (Nat → Bool) × (Nat → VnpuShmEntry) := (st.vnpuBitmap, st.entries)

/-- Nothing of what existed has changed: the leaves, the registry, the bitmaps and entries of the
shared memories, and the configuration files of the registered allocations. -/
structure Unchanged (cfg : NodeConfig F) (s s' : Allocator F) : Prop where
  aicoreQuota : ∀ phyId, (s'.leaf phyId).aicoreQuota = (s.leaf phyId).aicoreQuota
  hbmQuota : ∀ phyId, (s'.leaf phyId).hbmQuota = (s.leaf phyId).hbmQuota
  vnpuMask : ∀ phyId, (s'.leaf phyId).vnpuMask = (s.leaf phyId).vnpuMask
  policyEntries : ∀ phyId, (s'.leaf phyId).policyEntries = (s.leaf phyId).policyEntries
  registry : s'.registry.entries = s.registry.entries
  shm : ∀ phyId, (s'.shm phyId).map table = (s.shm phyId).map table
  files : ∀ a ∈ s.registry.entries, s'.files (cfg.configFile a.podUid a.containerName) =
    s.files (cfg.configFile a.podUid a.containerName)

/-- The configuration file the call would write is not that of a registered allocation. -/
def OwnFile (cfg : NodeConfig F) (s : Allocator F) (req : AllocRequest) (ch : AllocChoices) : Prop :=
  ∀ a d, s.selected cfg req ch = some (a, d) → ∀ b ∈ s.registry.entries,
    cfg.configFile b.podUid b.containerName ≠ cfg.configFile a.podUid a.containerName

/-- If the call adds its entry to the shared memory, the entry's place there already holds what is
left in it when the entry is removed again: everything but the id. -/
def SlotKept (cfg : NodeConfig F) (s : Allocator F) (req : AllocRequest) (ch : AllocChoices) :
    Prop :=
  ∀ a d, s.selected cfg req ch = some (a, d) → s.addsEntry d ch = true →
    ∃ st, s.shm d.phyId = some st ∧
      st.entries a.vnpuId = { buildShmEntry a (cfg.ratio d.phyId).enabled with vnpuId := -1 }

omit [DecidableEq F] in
/-- Where the place of the entry already looked like that, adding and removing the entry changes
nothing in the shared memory. -/
theorem map_table_of_undone {a : Allocation} {d : DieMeta} {ch : AllocChoices} {s' : Allocator F}
    (h : ShmUndone cfg s a d ch s') (hv : a.vnpuId < maxVnpuPerDie)
    (hlive : s.liveEntry d.phyId a.vnpuId = none)
    (hslot : s.addsEntry d ch = true → ∃ st, s.shm d.phyId = some st ∧
      st.entries a.vnpuId = { buildShmEntry a (cfg.ratio d.phyId).enabled with vnpuId := -1 })
    (phyId : Int) : (s'.shm phyId).map table = (s.shm phyId).map table := by
  rcases h with hsame | ⟨hadds, hshm⟩
  · rw [hsame]
  rw [hshm]
  by_cases hp : phyId = d.phyId
  swap
  · rw [update_of_ne hp]
  obtain ⟨st, hst, hentry⟩ := hslot hadds
  have hbit : st.vnpuBitmap a.vnpuId = false := by
    simpa [liveEntry, hst, ShmState.findEntry, ShmState.bitmapTest, hv] using hlive
  have htest : (st.initState d.totalBytes).bitmapTest a.vnpuId = false := by
    simp [ShmState.bitmapTest, ShmState.initState, hbit]
  have hmax : ¬ maxVnpuPerDie ≤ a.vnpuId := Nat.not_le.mpr hv
  rw [hp, update_self, hst, shmApplied, shmAdded, shmOf, hst, Option.getD_some,
    ShmState.addEntry_of_free hv htest]
  simp only [ShmState.removeEntry, if_neg hmax, ShmState.bitmapTest, hv, update_self,
    ShmState.modifyEntry, ShmState.initState, update_idem, decide_true, Bool.and_self,
    Bool.not_true, Bool.false_eq_true, if_false, Option.map_some, table]
  rw [← hentry, update_eq_self, ← hbit, update_eq_self]

/-- In every run whose recoveries only take in vNPUs the tree does not hold, an allocation
that fails changes nothing, provided that its checkpoint, if reached, was saved, that its
configuration file is its own, and that it fails before it adds its entry to the shared memory or
leaves the entry as it was. -/
theorem failed_allocate_unchanged (cfg : NodeConfig F) (registry : Registry) (pool : Tlsf.Pool)
    (files : F → Option String) (run : List Op) (req : AllocRequest) (ch : AllocChoices)
    (hrun : EachStep (opStep cfg) (RecoversOnce cfg) (init cfg registry pool files) run)
    (hsave : Saves cfg (exec (opStep cfg) (init cfg registry pool files) run) (.allocate req ch))
    (hfile : OwnFile cfg (exec (opStep cfg) (init cfg registry pool files) run) req ch)
    (hslot : SlotKept cfg (exec (opStep cfg) (init cfg registry pool files) run) req ch)
    (hfail : ((exec (opStep cfg) (init cfg registry pool files) run).allocate cfg req
      ch).1.result ≠ .success) :
    Unchanged cfg (exec (opStep cfg) (init cfg registry pool files) run)
      ((exec (opStep cfg) (init cfg registry pool files) run).allocate cfg req ch).2 := by
  have htidy := (throughout_of_step (tidy_init cfg registry pool files)
    (fun _ op h hop => h.opStep op hop) hrun).last
  generalize exec (opStep cfg) (init cfg registry pool files) run = s at *
  rcases htidy.allocate_outcome cfg req ch with ⟨-, -, hsame⟩ |
    ⟨a, d, hsome, hsel, ⟨-, hundone, hreg⟩ | ⟨hres, -⟩⟩
  · rw [hsame]
    exact ⟨fun _ => rfl, fun _ => rfl, fun _ => rfl, fun _ => rfl, rfl, fun _ => rfl,
      fun _ _ => rfl⟩
  · have hreg' : (s.allocate cfg req ch).2.registry = s.registry := by
      rcases hreg with hreg | ⟨hreach, hne⟩
      · exact hreg
      · exact absurd (hsave hreach) hne
    have hleaf := hundone.leaf
    exact
      { aicoreQuota := fun p => by obtain ⟨b, hb⟩ := hleaf p; rw [hb]
        hbmQuota := fun p => by obtain ⟨b, hb⟩ := hleaf p; rw [hb]
        vnpuMask := fun p => by obtain ⟨b, hb⟩ := hleaf p; rw [hb]
        policyEntries := fun p => by obtain ⟨b, hb⟩ := hleaf p; rw [hb]
        registry := by rw [hreg']
        shm := map_table_of_undone hundone.shm (vnpuId_lt hsel.isFree)
          (htidy.live_eq_none hsel.isFree) (hslot a d hsome)
        files := fun b hb => hundone.files _ (hfile a d hsome b hb) }
  · exact absurd hres hfail

def createFails : AllocChoices :=
  { saveFails with shmCreate := false }

theorem failed_create_unchanged : Unchanged oneDie emptyNode
    (emptyNode.allocate oneDie halfDie createFails).2 := by
  have hfail : (emptyNode.allocate oneDie halfDie createFails).1.result = .fail := by decide
  have hreach : emptyNode.reachesSave oneDie halfDie createFails = false := by decide
  apply failed_allocate_unchanged oneDie .empty (Tlsf.init 0) (fun _ => none) [] halfDie createFails
    trivial
  · intro h
    exact absurd (hreach.symm.trans h) Bool.false_ne_true
  · intro a d _ b hb
    cases hb
  · intro a d _ hadds
    simp [addsEntry, exec, init, createFails] at hadds
  · intro h
    exact absurd (hfail.symm.trans h) (by decide)

/-- A failed save leaves its entry in the registry. -/
theorem failed_save_changes_registry :
    (emptyNode.allocate oneDie halfDie saveFails).1.result = .fail ∧
      ¬ Unchanged oneDie emptyNode (emptyNode.allocate oneDie halfDie saveFails).2 := by
  refine ⟨by decide, fun h => ?_⟩
  have hlen : (emptyNode.allocate oneDie halfDie saveFails).2.registry.entries.length = 1 := by
    decide
  rw [h.registry] at hlen
  exact absurd hlen (by decide)

end Allocator

end UbsVirt.Enpu
