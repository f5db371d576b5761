import UbsVirt.Enpu.Ledger

/-!
# What the rollback reports

`rollback_log_rollback` undoes the logged steps from the last to the first, counts the undo
functions that do not return `ENPU_SUCCESS` and reports a failure if there is one
(`rollback_log.c:198-258`). Whether an undo took effect is stated here on the state before
and after it, apart from what the undo function returns. The two agree for five of the six
kinds of steps. Deleting a configuration file is the exception: `config_manager_delete_config`
returns the length of a path (`config_manager.c:256-268`), which is never `ENPU_SUCCESS`.
-/

namespace UbsVirt.Enpu

open List LeafState Allocator

variable {F : Type} [DecidableEq F]

/-- What the undo of a step meets: whether the configuration file is gone after `unlink`, and
the result of saving the registry. -/
structure UndoOutcome where
  unlink : Bool
  save : Status
  deriving DecidableEq, Repr

abbrev LoggedStep := RollbackStep × UndoOutcome

def undo (cfg : NodeConfig F) (s : Allocator F) (p : LoggedStep) : Allocator F :=
  (undoStep cfg s p.2.unlink p.2.save p.1).2

/-- `rollback_log_rollback`, `rollback_log.c:198-258`, with an outcome for each step: the failed
undo steps are counted, and the later ones still run. -/
def rollbackLog (cfg : NodeConfig F) (s : Allocator F) (log : List LoggedStep) :
    Status × Allocator F :=
  let (failed, s') := log.reverse.foldl
    (fun acc p =>
      let (ok, s') := undoStep cfg acc.2 p.2.unlink p.2.save p.1
      (if ok then acc.1 else acc.1 + 1, s')) (0, s)
  (if 0 < failed then .fail else .success, s')

def Reports (cfg : NodeConfig F) (s : Allocator F) (p : LoggedStep) : Prop :=
  (undoStep cfg s p.2.unlink p.2.save p.1).1 = true

instance (cfg : NodeConfig F) (s : Allocator F) (p : LoggedStep) : Decidable (Reports cfg s p) :=
  inferInstanceAs (Decidable (_ = true))

/-- The undo took effect: the die and the vNPU are there, and what the step had put in place in
`s` is gone in `s'`. A registration is undone when the registry has also been saved. -/
def Undone (cfg : NodeConfig F) (s s' : Allocator F) (outcome : UndoOutcome) : RollbackStep → Prop
  | .markOccupied phyId v =>
    ∃ d, cfg.getLeaf phyId = some d ∧ v < maxVnpuPerDie ∧
      (s'.leaf d.phyId).vnpuMask &&& bitMask v = bitMask v
  | .updateQuota phyId _ aicoreDelta hbmDelta =>
    ∃ d, cfg.getLeaf phyId = some d ∧
      (s'.leaf d.phyId).aicoreQuota = (s.leaf d.phyId).aicoreQuota - aicoreDelta ∧
      (s'.leaf d.phyId).hbmQuota = (s.leaf d.phyId).hbmQuota - hbmDelta.toUInt64
  | .attachPolicy phyId v =>
    ∃ d, cfg.getLeaf phyId = some d ∧ v < maxVnpuPerDie ∧
      (s'.leaf d.phyId).policyIds = (s.leaf d.phyId).policyIds.erase v
  | .createShm phyId v _ =>
    ∃ st st', s.shm phyId = some st ∧ st.bitmapTest v = true ∧
      s'.shm phyId = some st' ∧ st'.bitmapTest v = false
  | .writeConfig _ _ pod container => s'.files (cfg.configFile pod container) = none
  | .saveCheckpoint _ _ pod container =>
    (s.registry.get pod container).isSome = true ∧
      s'.registry.entries = s.registry.entries.eraseP (Registry.hasKey pod container) ∧
      outcome.save = .success

def TakesEffect (cfg : NodeConfig F) (s : Allocator F) (p : LoggedStep) : Prop :=
  Undone cfg s (undo cfg s p) p.2 p.1

def RollbackStep.writesConfig : RollbackStep → Bool
  | .writeConfig .. => true
  | _ => false

/-! ### One undo -/

namespace LeafState

variable {l : LeafState} {v : Nat}

theorem markFree_fst : (l.markFree v).1 = .success ↔ v < maxVnpuPerDie := by
  unfold markFree
  split
  · next h => simp [Nat.not_lt.mpr h]
  · next h => split <;> simp [Nat.not_le.mp h]

/-- Once it has been freed, no bit of the mask holds the vNPU. -/
theorem markFree_covers (hv : v < maxVnpuPerDie) :
    (l.markFree v).2.vnpuMask &&& bitMask v = bitMask v := by
  refine BitVec.eq_of_getLsbD_eq fun i hi => ?_
  rw [BitVec.getLsbD_and, getLsbD_bitMask]
  by_cases hiv : i = v
  swap
  · simp [hiv]
  subst hiv
  unfold markFree
  rw [if_neg (Nat.not_le.mpr hv)]
  split
  · next hfree => simp [← isFree_eq hi, hfree]
  · simp [getLsbD_bitMask, hi]

theorem detachPolicy_fst : (l.detachPolicy v).1 = .success ↔ v < maxVnpuPerDie := by
  unfold detachPolicy
  split
  · next h => simp [Nat.not_lt.mpr h]
  · next h => split <;> simp [Nat.not_le.mp h]

/-- The first entry of the vNPU goes, if it has one. -/
theorem detachPolicy_policyIds (hv : v < maxVnpuPerDie) :
    (l.detachPolicy v).2.policyIds = l.policyIds.erase v := by
  unfold detachPolicy policyIds
  rw [if_neg (Nat.not_le.mpr hv), erase_eq_eraseP, eraseP_map]
  have hkey : ((v == ·) ∘ PolicyEntry.vnpuId) = (·.vnpuId == v) := funext fun e => BEq.comm
  rw [hkey]
  split
  · rfl
  · next hnone =>
    rw [eraseP_of_forall_not]
    exact fun e he hv => hnone (any_eq_true.mpr ⟨e, he, hv⟩)

/-- Taking quotas back subtracts them, whichever way the sign is. -/
theorem updateQuota_takesBack (l : LeafState) (aicore : Int32) (hbm : Int64) :
    (l.updateQuota (-aicore) (-hbm)).aicoreQuota = l.aicoreQuota - aicore ∧
      (l.updateQuota (-aicore) (-hbm)).hbmQuota = l.hbmQuota - hbm.toUInt64 := by
  refine ⟨(Int32.sub_eq_add_neg _ _).symm, ?_⟩
  rw [updateQuota_hbmQuota, Int64.toUInt64_neg, ← sub_eq_add_neg]

end LeafState

section

variable {cfg : NodeConfig F} {s : Allocator F} {outcome : UndoOutcome}

section

variable (phyId : Int) (v : Nat)

theorem reports_markOccupied_iff : Reports cfg s (.markOccupied phyId v, outcome) ↔
      TakesEffect cfg s (.markOccupied phyId v, outcome) := by
  simp only [Reports, TakesEffect, Undone, undo, undoStep]
  cases cfg.getLeaf phyId with
  | none => simp
  | some d =>
    simp only [Option.some.injEq, exists_eq_left', beq_iff_eq, setLeaf,
      Function.update_self, markFree_fst]
    exact ⟨fun hv => ⟨hv, markFree_covers hv⟩, fun h => h.1⟩

theorem reports_updateQuota_iff (aicore : Int32) (hbm : Int64) :
    Reports cfg s (.updateQuota phyId v aicore hbm, outcome) ↔
      TakesEffect cfg s (.updateQuota phyId v aicore hbm, outcome) := by
  simp only [Reports, TakesEffect, Undone, undo, undoStep]
  cases cfg.getLeaf phyId with
  | none => simp
  | some d =>
    simp only [Option.some.injEq, exists_eq_left', setLeaf, Function.update_self]
    exact iff_of_true trivial (updateQuota_takesBack _ aicore hbm)

theorem reports_attachPolicy_iff : Reports cfg s (.attachPolicy phyId v, outcome) ↔
      TakesEffect cfg s (.attachPolicy phyId v, outcome) := by
  simp only [Reports, TakesEffect, Undone, undo, undoStep]
  cases cfg.getLeaf phyId with
  | none => simp
  | some d =>
    simp only [Option.some.injEq, exists_eq_left', beq_iff_eq, setLeaf,
      Function.update_self, detachPolicy_fst]
    exact ⟨fun hv => ⟨hv, detachPolicy_policyIds hv⟩, fun h => h.1⟩

/-- An entry that is removed was there. -/
theorem reports_createShm_iff (shmId : String) : Reports cfg s (.createShm phyId v shmId, outcome) ↔
      TakesEffect cfg s (.createShm phyId v shmId, outcome) := by
  -- where the undo returns early it leaves the state alone, so no entry goes
  have hsame : ¬ ∃ st st', s.shm phyId = some st ∧ st.bitmapTest v = true ∧
      s.shm phyId = some st' ∧ st'.bitmapTest v = false := by
    rintro ⟨st, st', hst, hbit, hst', hbit'⟩
    cases hst.symm.trans hst'
    rw [hbit] at hbit'
    cases hbit'
  simp only [Reports, TakesEffect, Undone, undo, undoStep, shmRemoveEntry]
  split
  · exact iff_of_false Bool.false_ne_true hsame
  split
  · exact iff_of_false Bool.false_ne_true hsame
  split
  · exact iff_of_false Bool.false_ne_true hsame
  next hv =>
  split
  · exact iff_of_false Bool.false_ne_true hsame
  next st hst =>
  simp only [Function.update_self, ShmState.removeEntry, if_neg hv, hst, Option.some.injEq,
    exists_and_left, exists_eq_left']
  split
  · next hbit =>
    refine iff_of_false Bool.false_ne_true ?_
    rintro ⟨hset, hclear⟩
    rw [hset] at hclear
    cases hclear
  · next hbit =>
    refine iff_of_true rfl ⟨by simpa using hbit, ?_⟩
    simp [ShmState.bitmapTest]

theorem reports_saveCheckpoint_iff (pod container : String) :
    Reports cfg s (.saveCheckpoint phyId v pod container, outcome) ↔
      TakesEffect cfg s (.saveCheckpoint phyId v pod container, outcome) := by
  -- erasing the entry that is found makes the list shorter
  have hshort : (s.registry.get pod container).isSome = true →
      s.registry.entries ≠ s.registry.entries.eraseP (Registry.hasKey pod container) := by
    intro hsome heq
    obtain ⟨a, ha⟩ := Option.isSome_iff_exists.mp hsome
    obtain ⟨hmem, hkey⟩ := Registry.get_some ha
    have hlen := length_eraseP_of_mem hmem (Registry.hasKey_iff.mpr hkey)
    have hpos := length_pos_of_mem hmem
    rw [← heq] at hlen
    omega
  simp only [Reports, TakesEffect, Undone, undo, undoStep, Registry.release]
  split
  · exact iff_of_false Bool.false_ne_true fun h => hshort h.1 h.2.1
  split
  · next hsome => simp [hsome]
  · next hnone => exact iff_of_false Bool.false_ne_true fun h => hnone h.1

end

/-- The undo function of a step that wrote no configuration file reports its effect. -/
theorem reports_iff_takesEffect (p : LoggedStep) (hp : p.1.writesConfig = false) :
    Reports cfg s p ↔ TakesEffect cfg s p := by
  obtain ⟨step, outcome⟩ := p
  cases step with
  | markOccupied phyId v => exact reports_markOccupied_iff phyId v
  | updateQuota phyId v aicore hbm => exact reports_updateQuota_iff phyId v aicore hbm
  | attachPolicy phyId v => exact reports_attachPolicy_iff phyId v
  | createShm phyId v shmId => exact reports_createShm_iff phyId v shmId
  | writeConfig phyId v pod container => cases hp
  | saveCheckpoint phyId v pod container => exact reports_saveCheckpoint_iff phyId v pod container

/-- The undo of a configuration file never reports success: the length of a path with a pod in
it is not `ENPU_SUCCESS`. -/
theorem not_reports_writeConfig (p : LoggedStep) (hp : p.1.writesConfig = true) :
    ¬ Reports cfg s p := by
  obtain ⟨step, outcome⟩ := p
  cases step with
  | writeConfig phyId v pod container =>
    simp only [Reports, undoStep, deleteConfig]
    split
    · exact Bool.false_ne_true
    · next hnames =>
      have hlen : (cfg.basePath ++ pod).length ≠ 0 := by
        rw [String.length_append]
        have := mt String.length_eq_zero_iff.mp (not_or.mp hnames).1
        omega
      exact fun hzero => hlen (Int.natCast_eq_zero.mp (beq_iff_eq.mp hzero))
  | markOccupied | updateQuota | attachPolicy | createShm | saveCheckpoint => cases hp

end

/-! ### The whole log -/

section

variable {cfg : NodeConfig F} {s : Allocator F}

/-- The loop of the rollback, which counts the undo steps that fail. -/
theorem foldl_undo (steps : List LoggedStep) (failed : Nat) (s : Allocator F) :
    let out := steps.foldl (fun acc p =>
      let (ok, s') := undoStep cfg acc.2 p.2.unlink p.2.save p.1
      (if ok then acc.1 else acc.1 + 1, s')) (failed, s)
    out.2 = Run.exec (undo cfg) s steps ∧
      (out.1 = 0 ↔ failed = 0 ∧ Run.EachStep (undo cfg) (Reports cfg) s steps) := by
  induction steps generalizing failed s with
  | nil => exact ⟨rfl, (and_iff_left trivial).symm⟩
  | cons p steps ih =>
    obtain ⟨hstate, hcount⟩ := ih (if Reports cfg s p then failed else failed + 1) (undo cfg s p)
    refine ⟨hstate, hcount.trans ?_⟩
    by_cases hp : Reports cfg s p
    · rw [if_pos hp]
      exact and_congr_right fun _ => (and_iff_right hp).symm
    · rw [if_neg hp]
      exact iff_of_false (fun h => Nat.succ_ne_zero _ h.1) fun h => hp h.2.1

theorem rollbackLog_snd (log : List LoggedStep) :
    (rollbackLog cfg s log).2 = Run.exec (undo cfg) s log.reverse :=
  (foldl_undo log.reverse 0 s).1

theorem rollbackLog_fst (log : List LoggedStep) : (rollbackLog cfg s log).1 = .success ↔
      Run.EachStep (undo cfg) (Reports cfg) s log.reverse := by
  have hcount : _ ↔ 0 = 0 ∧ Run.EachStep (undo cfg) (Reports cfg) s log.reverse :=
    (foldl_undo log.reverse 0 s).2
  rw [and_iff_right rfl] at hcount
  rw [← hcount]
  unfold rollbackLog
  dsimp only
  split
  · next hpos => exact iff_of_false (by decide) (Nat.ne_of_gt hpos)
  · next hzero => exact iff_of_true rfl (Nat.eq_zero_of_not_pos hzero)

/-- A loop that remembers whether something failed and one that counts the failures agree. -/
theorem foldl_flag_iff_count {σ ι : Type*} (g : σ → ι → Bool × σ) (is : List ι) (ok : Bool)
    (failed : Nat) (s : σ) (h : ok = true ↔ failed = 0) :
    let out := is.foldl (fun acc i => (acc.1 && (g acc.2 i).1, (g acc.2 i).2)) (ok, s)
    let out' := is.foldl (fun acc i =>
      (if (g acc.2 i).1 then acc.1 else acc.1 + 1, (g acc.2 i).2)) (failed, s)
    (out.1 = true ↔ out'.1 = 0) ∧ out.2 = out'.2 := by
  induction is generalizing ok failed s with
  | nil => exact ⟨h, rfl⟩
  | cons i is ih =>
    refine ih _ _ _ ?_
    cases (g s i).1 with
    | true => simpa using h
    | false => simp

/-- With the same outcome for every step this is the rollback that an allocation runs. -/
theorem rollbackLogRollback_eq (log : List RollbackStep) (unlink : Bool) (save : Status) :
    rollbackLogRollback cfg s log unlink save =
      rollbackLog cfg s (log.map (·, ⟨unlink, save⟩)) := by
  obtain ⟨hflag, hstate⟩ := foldl_flag_iff_count (fun s step => undoStep cfg s unlink save step)
    log.reverse true 0 s (iff_of_true rfl rfl)
  unfold rollbackLogRollback rollbackLog
  rw [← map_reverse, foldl_map]
  refine Prod.ext ?_ hstate
  dsimp only at hflag ⊢
  by_cases hzero : 0 < (log.reverse.foldl (fun acc step =>
      (if (undoStep cfg acc.2 unlink save step).1 then acc.1 else acc.1 + 1,
        (undoStep cfg acc.2 unlink save step).2)) (0, s)).1
  · rw [if_pos hzero, if_neg (mt hflag.mp (Nat.ne_of_gt hzero))]
  · rw [if_neg hzero, if_pos (hflag.mpr (Nat.eq_zero_of_not_pos hzero))]

/-- The steps are undone from the last to the first. The verdict is right, that is, a success
exactly when every undo took effect, if no configuration file was to be deleted, and
otherwise only when some undo did not take effect. -/
theorem rollbackLog_verdict_iff (cfg : NodeConfig F) (s : Allocator F) (log : List LoggedStep) :
    (rollbackLog cfg s log).2 = Run.exec (undo cfg) s log.reverse ∧
    (((rollbackLog cfg s log).1 = .success ↔
        Run.EachStep (undo cfg) (TakesEffect cfg) s log.reverse) ↔
      ((∀ p ∈ log, p.1.writesConfig = false) ∨
        ¬ Run.EachStep (undo cfg) (TakesEffect cfg) s log.reverse)) := by
  refine ⟨rollbackLog_snd log, ?_⟩
  rw [rollbackLog_fst]
  by_cases hlog : ∀ p ∈ log, p.1.writesConfig = false
  · refine iff_of_true (Run.eachStep_congr fun p hp s => ?_) (.inl hlog)
    exact reports_iff_takesEffect p (hlog p (mem_reverse.mp hp))
  · have hnone : ¬ Run.EachStep (undo cfg) (Reports cfg) s log.reverse := by
      intro hall
      refine hlog fun p hp => ?_
      obtain ⟨t, ht⟩ := hall.exists_of_mem (mem_reverse.mpr hp)
      exact Bool.eq_false_iff.mpr fun hwrites => not_reports_writeConfig p hwrites ht
    rw [or_iff_right hlog, iff_false_left hnone]

end

/-- The configuration file of an allocation is deleted, and the rollback reports a failure. -/
theorem deleted_and_reported_failed :
    ¬ ∀ (cfg : NodeConfig String) (s : Allocator String) (log : List LoggedStep), log.length ≤ 16 →
      ((rollbackLog cfg s log).1 = .success ↔
        Run.EachStep (undo cfg) (TakesEffect cfg) s log.reverse) := by
  intro h
  let s : Allocator String :=
    .init oneDie .empty (Tlsf.init 4096) fun _ => some "config"
  let p : LoggedStep := (.writeConfig 0 0 "pod" "container", ⟨true, .success⟩)
  have heffect : TakesEffect oneDie s p := by
    simp [TakesEffect, Undone, undo, undoStep, deleteConfig, p]
  have hsuccess := (h oneDie s [p] (by decide)).mpr ⟨heffect, trivial⟩
  rw [rollbackLog_fst] at hsuccess
  exact not_reports_writeConfig p rfl hsuccess.1

end UbsVirt.Enpu
