import UbsVirt.Enpu.SwapAtomics

/-!
# Completion and the next command

A swap-out is completed by two stores, `completed` first and `action` after it, and the manager
writes the next command as soon as it has seen the first one. A process that acknowledges does
not take the lock of the manager: when it is late, its stores hit the next command, which is
then completed without its acknowledgements, or keeps `completed = false` with no action and
is lost. As long as no command is written while a process is between its last look at the
epoch and its second store, neither happens. Source:
`enpu-manager/core/src/shm_manager.c:594-831`, `vcann-rt/src/shm_manager.c:245-319`.
-/

namespace UbsVirt.Enpu

open Interleaving Run Config CmdPc
open CmdSystem (step init)

namespace CmdPc

def locked : CmdPc → Bool
  | .storeTarget _ _ | .storeOutTarget _ _ | .addSeq _ | .loadActive _ _ _ _
  | .storeMarker _ _ _ _ _ | .storeRefcount _ | .resetCompleted _ | .publish | .proxyAction _ _
  | .proxySeq _ _ | .proxyExchange _ _ _ | .proxySub _ _ | .tryCompleted | .tryAction | .trySeq
  | .tryTarget _ | .pendingEntry _ _ | .pendingScan _ _ _ | .unlock => true
  | .storeCompleted _ locked | .storeAction _ locked | .storeOut locked => locked
  | _ => false

/-- The epoch the thread takes for the current one, and is not going to compare again. -/
def epoch? : CmdPc → Option Nat
  | .proxyExchange _ _ seq | .proxySub _ seq | .tryTarget seq | .pendingEntry _ seq
  | .pendingScan _ seq _ | .storeCompleted seq _ | .storeAction seq _ => some seq
  | _ => none

def completing : CmdPc → Bool
  | .storeCompleted _ _ | .storeAction _ _ => true
  | _ => false

/-- The thread has completed a command and not yet taken back its action. -/
def halfDone : CmdPc → Bool
  | .storeAction _ _ => true
  | _ => false

/-- The thread has taken a new epoch and not yet published its command. -/
def writing : CmdPc → Bool
  | .loadActive _ _ _ _ | .storeMarker _ _ _ _ _ | .storeRefcount _ | .resetCompleted _
  | .publish => true
  | _ => false

variable {pc : CmdPc}

theorem locked_of_writing (h : pc.writing = true) : pc.locked = true := by
  cases pc <;> simp_all [writing, locked]

theorem completing_of_halfDone (h : pc.halfDone = true) : pc.completing = true := by
  cases pc <;> simp_all [halfDone, completing]

theorem not_writing_of_completing (h : pc.completing = true) : pc.writing = false := by
  cases pc <;> simp_all [completing, writing]

theorem locked_or_completing {seq : Nat} (h : seq ∈ pc.epoch?) :
    pc.locked = true ∨ pc.completing = true := by
  cases pc <;> simp_all [epoch?, locked, completing]

end CmdPc

section

variable {ι : Type}

/-- An acknowledgement of an epoch does not complete a command of another one. -/
def CompletesOwn (s : CmdSystem ι) : CmdStep ι → Prop
  | .access p => ∀ seq locked, s.control p = .storeCompleted seq locked →
    s.shared.shm.swapCmd.completed = false → s.shared.shm.swapCmd.cmdSeq = seq
  | .call _ _ => True

/-- While no operation is in progress, a command that is not completed is a swap-out. -/
def Published (s : CmdSystem ι) : Prop :=
  (∀ p, s.control p = .idle) → s.shared.shm.swapCmd.completed = false →
    s.shared.shm.swapCmd.action = .out

/-- The condition on an access: no thread is going to complete a command when a new epoch is
taken, and no command is being written when a process has compared the epoch for the last
time and goes on to complete it. -/
def MayGoOn (s : CmdSystem ι) : CmdPc → Prop
  | .addSeq _ => ∀ q, (s.control q).completing = false
  | .ackSeqAgain seq => s.shared.shm.swapCmd.cmdSeq = seq → ∀ q, (s.control q).writing = false
  | _ => True

def MayOverlap (s : CmdSystem ι) : CmdStep ι → Prop
  | .access p => MayGoOn s (s.control p)
  | .call _ _ => True

end

/-! ### What an access changes -/

section

variable {ι : Type} {p : ι} {c : CmdShared ι} {pc : CmdPc}

/-- What an access does to the command and to the lock. -/
structure Performed (p : ι) (c : CmdShared ι) (pc : CmdPc) (c' : CmdShared ι) : Prop where
  /-- Only `addSeq` takes a new epoch. -/
  cmdSeq : c'.shm.swapCmd.cmdSeq = c.shm.swapCmd.cmdSeq ∨ ∃ v, pc = .addSeq v
  /-- `completed` is set by an acknowledgement, and reset only while a command is written. -/
  completed : c'.shm.swapCmd.completed = c.shm.swapCmd.completed ∨
    c'.shm.swapCmd.completed = true ∨ pc.writing = true
  /-- The action is taken back by a thread that has set `completed`, and published at the end
  of a write. -/
  action : c'.shm.swapCmd.action = c.shm.swapCmd.action ∨ pc.halfDone = true ∨ pc = .publish
  target : c'.shm.swapCmd.targetVnpuId = c.shm.swapCmd.targetVnpuId ∨
    ∃ v toSwapOut, pc = .storeTarget v toSwapOut
  /-- The lock is taken when it is free, and released by its holder. -/
  lock : c'.lock = c.lock ∨ pc.locked = true ∧ c'.lock = none ∨ c.lock = none ∧ c'.lock = some p

variable (p c pc) in
theorem performed : Performed p c pc (perform p c pc).1 := by
  fun_cases perform p c pc <;> (try unfold CmdShared.acquire) <;> (try split) <;>
    constructor <;> simp_all [writing, halfDone, locked]

/-- Where a thread comes by an access. -/
structure GoesOn (p : ι) (c : CmdShared ι) (pc : CmdPc) (r : CmdShared ι × CmdPc) : Prop where
  /-- A write begins with a new epoch and ends with the publication of its command. -/
  write : r.2.writing = true → pc.writing = true ∨ ∃ v, pc = .addSeq v
  writing : pc.writing = true → r.2.writing = true ∨ r.1.shm.swapCmd.action = .out
  /-- The stores of a completion begin under the lock, or with the last look at the epoch. -/
  completing : r.2.completing = true → pc.completing = true ∨ pc.locked = true ∨
    ∃ seq, pc = .ackSeqAgain seq ∧ c.shm.swapCmd.cmdSeq = seq
  halfDone : r.2.halfDone = true → r.1.shm.swapCmd.completed = true
  locked : (pc.locked = true → c.lock = some p) → r.2.locked = true → r.1.lock = some p
  /-- The epoch a thread keeps has been compared with the current one. -/
  epoch : ∀ seq, (seq ∈ pc.epoch? → c.shm.swapCmd.cmdSeq = seq) →
    seq ∈ r.2.epoch? → r.1.shm.swapCmd.cmdSeq = seq

variable (p c pc) in
theorem goesOn : GoesOn p c pc (perform p c pc) := by
  fun_cases perform p c pc <;> (try unfold CmdShared.acquire) <;> (try split) <;>
    constructor <;> simp_all [writing, completing, halfDone, locked, epoch?]

end

/-- A called operation starts like an idle thread, as far as `f` can tell. -/
theorem CmdOp.entry_eq {α : Type} {f : CmdPc → α} (op : CmdOp)
    (hack : ∀ v i seq, f (.ackExchange v i seq) = f .idle)
    (hwrite : ∀ v toSwapOut, f (.seeCompleted v toSwapOut) = f .idle)
    (hproxy : ∀ v i, f (.lockProxy v i) = f .idle) (htry : f .lockTry = f .idle) :
    f op.entry = f .idle := by
  cases op with
  | tryAck v i seq =>
    simp only [CmdOp.entry]
    split
    · rfl
    · exact hack v i seq
  | write v toSwapOut =>
    simp only [CmdOp.entry]
    split
    · rfl
    · exact hwrite v toSwapOut
  | proxyAck v i =>
    simp only [CmdOp.entry]
    split
    · rfl
    · exact hproxy v i
  | tryComplete => exact htry

/-! ### The invariant -/

section

variable {ι : Type} [DecidableEq ι] {s : CmdSystem ι}

/-- The stores of a completion and the writing of a command exclude each other, and unless a
command is being written, one that is not completed is a swap-out. -/
structure OverlapInv (s : CmdSystem ι) : Prop where
  lock : ∀ p, (s.control p).locked = true → s.shared.lock = some p
  epoch : ∀ p, ∀ seq ∈ (s.control p).epoch?, s.shared.shm.swapCmd.cmdSeq = seq
  halfDone : ∀ p, (s.control p).halfDone = true → s.shared.shm.swapCmd.completed = true
  exclusive : ∀ p q, (s.control p).completing = true → (s.control q).writing = false
  published : (∀ q, (s.control q).writing = false) → s.shared.shm.swapCmd.completed = false →
    s.shared.shm.swapCmd.action = .out

namespace OverlapInv

variable {p : ι}

omit [DecidableEq ι] in
/-- Only one thread is in the sections under the lock. -/
theorem eq_of_locked (h : OverlapInv s) {q : ι} (hp : (s.control p).locked = true)
    (hq : (s.control q).locked = true) : p = q := by
  have hlock := h.lock p hp
  rw [h.lock q hq] at hlock
  exact (Option.some.inj hlock).symm

section

variable (h : OverlapInv s)
include h

theorem lock_access (p : ι) (q : ι) (hq : ((s.step (.access p)).control q).locked = true) :
    (s.step (.access p)).shared.lock = some q := by
  apply forall_act (I := fun q pc (c : CmdShared ι) => pc.locked = true → c.lock = some q)
    h.lock (((goesOn p s.shared (s.control p)).locked (h.lock p))) _ q hq
  intro q hne hold hlocked
  rcases (performed p s.shared (s.control p)).lock with heq | ⟨hpc, -⟩ | ⟨hfree, -⟩
  · rw [heq]
    exact hold hlocked
  · exact absurd (h.eq_of_locked hlocked hpc) hne
  · rw [hold hlocked] at hfree
    cases hfree

theorem epoch_access (hmay : MayOverlap s (.access p)) (q : ι)
    {seq : Nat} (hq : seq ∈ ((s.step (.access p)).control q).epoch?) :
    (s.step (.access p)).shared.shm.swapCmd.cmdSeq = seq := by
  apply forall_act (I := fun _ pc (c : CmdShared ι) => seq ∈ pc.epoch? → c.shm.swapCmd.cmdSeq = seq)
    (fun q => h.epoch q seq) ((goesOn p s.shared (s.control p)).epoch seq (h.epoch p seq)) _ q hq
  intro q hne hold hseq
  rcases (performed p s.shared (s.control p)).cmdSeq with heq | ⟨v, hpc⟩
  · rw [heq]
    exact hold hseq
  · exfalso
    change MayGoOn s (s.control p) at hmay
    rw [hpc] at hmay
    rcases locked_or_completing hseq with hlocked | hcompl
    · exact hne (h.eq_of_locked hlocked (by rw [hpc]; rfl))
    · rw [hmay q] at hcompl
      cases hcompl

theorem halfDone_access (p : ι) (q : ι) (hq : ((s.step (.access p)).control q).halfDone = true) :
    (s.step (.access p)).shared.shm.swapCmd.completed = true := by
  apply forall_act
    (I := fun _ pc (c : CmdShared ι) => pc.halfDone = true → c.shm.swapCmd.completed = true)
    h.halfDone (goesOn p s.shared (s.control p)).halfDone _ q hq
  intro q hne hold hhalf
  rcases (performed p s.shared (s.control p)).completed with heq | hset | hwrite
  · rw [heq]
    exact hold hhalf
  · exact hset
  · rw [h.exclusive q p (completing_of_halfDone hhalf)] at hwrite
    cases hwrite

theorem exclusive_access (hmay : MayOverlap s (.access p)) (q r : ι)
    (hq : ((s.step (.access p)).control q).completing = true) :
    ((s.step (.access p)).control r).writing = false := by
  change ((s.act p _).control q).completing = true at hq
  show ((s.act p _).control r).writing = false
  by_cases hqp : q = p
  · subst hqp
    rw [act_control_self] at hq
    by_cases hr : r = q
    · subst hr
      rw [act_control_self]
      exact not_writing_of_completing hq
    rw [act_control_of_ne hr]
    rcases (goesOn ..).completing hq with hold | hlocked | ⟨seq, hpc, hseq⟩
    · exact h.exclusive q r hold
    · by_contra hwrite
      have hlocked' := locked_of_writing (Bool.not_eq_false _ ▸ hwrite)
      exact hr (h.eq_of_locked hlocked' hlocked)
    · change MayGoOn s (s.control q) at hmay
      rw [hpc] at hmay
      exact hmay hseq r
  · rw [act_control_of_ne hqp] at hq
    by_cases hr : r = p
    · subst hr
      rw [act_control_self]
      by_contra hwrite
      rcases (goesOn ..).write (Bool.not_eq_false _ ▸ hwrite) with hold | ⟨v, hpc⟩
      · rw [h.exclusive q r hq] at hold
        cases hold
      · change MayGoOn s (s.control r) at hmay
        rw [hpc] at hmay
        rw [hmay q] at hq
        cases hq
    · rw [act_control_of_ne hr]
      exact h.exclusive q r hq

theorem published_access (p : ι) (hnone : ∀ q, ((s.step (.access p)).control q).writing = false)
    (hcompl : (s.step (.access p)).shared.shm.swapCmd.completed = false) :
    (s.step (.access p)).shared.shm.swapCmd.action = .out := by
  have hown : (perform p s.shared (s.control p)).2.writing = false := by
    have := hnone p
    change ((s.act p _).control p).writing = false at this
    rwa [act_control_self] at this
  change (perform p s.shared (s.control p)).1.shm.swapCmd.completed = false at hcompl
  show (perform p s.shared (s.control p)).1.shm.swapCmd.action = .out
  cases hwrite : (s.control p).writing with
  | true =>
    rcases (goesOn p s.shared _).writing hwrite with hgo | hout
    · rw [hown] at hgo
      cases hgo
    · exact hout
  | false =>
    -- nothing was being written before the access either
    have hbefore : ∀ q, (s.control q).writing = false := by
      intro q
      by_cases hq : q = p
      · rwa [hq]
      · have := hnone q
        change ((s.act p _).control q).writing = false at this
        rwa [act_control_of_ne hq] at this
    have hold : s.shared.shm.swapCmd.completed = false := by
      rcases (performed p s.shared (s.control p)).completed with
        heq | hset | hwrite'
      · rwa [heq] at hcompl
      · rw [hset] at hcompl
        cases hcompl
      · rw [hwrite] at hwrite'
        cases hwrite'
    rcases (performed p s.shared (s.control p)).action with
      heq | hhalf | hpub
    · rw [heq]
      exact h.published hbefore hold
    · rw [h.halfDone p hhalf] at hold
      cases hold
    · rw [hpub] at hwrite
      cases hwrite

omit h in
/-- A call changes nothing that the invariant looks at. -/
theorem call_control {α : Type} {f : CmdPc → α} {op : CmdOp}
    (hidle : s.control p = .idle) (hentry : f op.entry = f .idle) (q : ι) :
    f ((s.act p (s.shared, op.entry)).control q) = f (s.control q) := by
  by_cases hq : q = p
  · subst hq
    rw [act_control_self, hentry, hidle]
  · rw [act_control_of_ne hq]

/-- Beginning an operation keeps the invariant. -/
theorem call (p : ι) (op : CmdOp) : OverlapInv (s.step (.call p op)) := by
  unfold step
  dsimp only
  split
  swap
  · exact h
  next hidle =>
  have hlocked : op.entry.locked = idle.locked :=
    op.entry_eq (fun _ _ _ => rfl) (fun _ _ => rfl) (fun _ _ => rfl) rfl
  have hepoch : op.entry.epoch? = idle.epoch? :=
    op.entry_eq (fun _ _ _ => rfl) (fun _ _ => rfl) (fun _ _ => rfl) rfl
  have hcompleting : op.entry.completing = idle.completing :=
    op.entry_eq (fun _ _ _ => rfl) (fun _ _ => rfl) (fun _ _ => rfl) rfl
  have hhalf : op.entry.halfDone = idle.halfDone :=
    op.entry_eq (fun _ _ _ => rfl) (fun _ _ => rfl) (fun _ _ => rfl) rfl
  have hwriting : op.entry.writing = idle.writing :=
    op.entry_eq (fun _ _ _ => rfl) (fun _ _ => rfl) (fun _ _ => rfl) rfl
  constructor
  case lock =>
    intro q hq
    rw [call_control hidle hlocked] at hq
    exact h.lock q hq
  case epoch =>
    intro q
    rw [call_control hidle hepoch]
    exact h.epoch q
  case halfDone =>
    intro q hq
    rw [call_control hidle hhalf] at hq
    exact h.halfDone q hq
  case exclusive =>
    intro q r hq
    rw [call_control hidle hcompleting] at hq
    rw [call_control hidle hwriting]
    exact h.exclusive q r hq
  case published =>
    intro hnone
    apply h.published
    intro q
    rw [← call_control (f := writing) hidle hwriting q]
    exact hnone q

theorem step {i : CmdStep ι} (hmay : MayOverlap s i) : OverlapInv (s.step i) := by
  cases i with
  | call p op => exact h.call p op
  | access p =>
    exact ⟨h.lock_access p, fun q _ => h.epoch_access hmay q, h.halfDone_access p,
      h.exclusive_access hmay, h.published_access p⟩

end

omit [DecidableEq ι] in
theorem init {st : ShmState} (hcompl : st.swapCmd.completed = true) :
    OverlapInv (init st : CmdSystem ι) := by
  refine ⟨nofun, nofun, nofun, nofun, ?_⟩
  intro _ hfalse
  change st.swapCmd.completed = false at hfalse
  rw [hcompl] at hfalse
  cases hfalse

omit [DecidableEq ι] in
theorem completesOwn (h : OverlapInv s) (i : CmdStep ι) : CompletesOwn s i := by
  cases i with
  | call p op => trivial
  | access p =>
    intro seq locked hpc _
    apply h.epoch p
    rw [hpc]
    rfl

omit [DecidableEq ι] in
theorem published_of_idle (h : OverlapInv s) : Published s := by
  intro hidle
  apply h.published
  intro q
  rw [hidle q]
  rfl

end OverlapInv

end

/-- For any number of threads and operations, from any state in which no command is under way:
in every run whose steps all meet the condition, no acknowledgement completes a command of a
later epoch, and no swap-out is lost. -/
theorem swap_out_kept {ι : Type} [DecidableEq ι] (st : ShmState)
    (hcompleted : st.swapCmd.completed = true) (run : List (CmdStep ι))
    (hmay : EachStep step MayOverlap (init st) run) :
    EachStep step CompletesOwn (init st) run ∧
      Throughout step Published (init st) run := by
  have hinit : OverlapInv (init st : CmdSystem ι) := .init hcompleted
  constructor
  · exact eachStep_of_invariant hinit (fun _ _ h hi => h.step hi) (fun _ i h _ => h.completesOwn i)
      hmay
  · exact (throughout_of_step hinit (fun _ _ h hi => h.step hi) hmay).mono
      fun _ h => h.published_of_idle

section

variable {n : Nat}

instance (s : CmdSystem (Fin n)) (pc : CmdPc) : Decidable (MayGoOn s pc) := by
  cases pc <;> unfold MayGoOn <;> infer_instance

instance (s : CmdSystem (Fin n)) (i : CmdStep (Fin n)) : Decidable (MayOverlap s i) := by
  cases i <;> unfold MayOverlap <;> infer_instance

/-- A die with vNPU 0, which has one process; no command is under way. -/
def oneProcess : ShmState :=
  { ((ShmState.create "die").modifySlot 0 .first fun pe => { pe with active := true }).setCompleted
      true with
    vnpuBitmap := fun v => v = 0 }

def callRun (p : Fin n) (op : CmdOp) (k : Nat) : List (CmdStep (Fin n)) :=
  .call p op :: List.replicate k (.access p)

def acknowledgedTwice : List (CmdStep (Fin 2)) :=
  callRun 0 (.write 0 .none) 75 ++ callRun 1 (.tryAck 0 .first 1) 73 ++
    callRun 0 (.write 0 .none) 75 ++ callRun 1 (.tryAck 0 .first 2) 73

theorem acknowledgedTwice_kept :
    EachStep step MayOverlap (init oneProcess) acknowledgedTwice ∧
      EachStep step CompletesOwn (init oneProcess) acknowledgedTwice ∧
      Throughout step Published (init oneProcess) acknowledgedTwice := by
  have hmay : EachStep step MayOverlap (init oneProcess)
      acknowledgedTwice := by
    decide +kernel
  exact ⟨hmay, swap_out_kept oneProcess rfl acknowledgedTwice hmay⟩

/-- The process has stored `completed`, and before it stores the action the manager writes the
next command. -/
def overtakenRun : List (CmdStep (Fin 3)) :=
  callRun 0 (.write 0 .none) 75 ++ callRun 1 (.tryAck 0 .first 1) 71 ++
    callRun 0 (.write 0 .none) 75 ++ List.replicate 2 (.access 1)

/-- Before the process stores `completed`, the watchdog completes the command and the manager
writes the next one. -/
def lateAckRun : List (CmdStep (Fin 3)) :=
  callRun 0 (.write 0 .none) 75 ++ callRun 1 (.tryAck 0 .first 1) 70 ++
    callRun 2 .tryComplete 75 ++ callRun 0 (.write 0 .none) 75

def overtakenEnd : CmdSystem (Fin 3) :=
  exec step (init oneProcess) overtakenRun

def lateAckEnd : CmdSystem (Fin 3) :=
  exec step (init oneProcess) lateAckRun

theorem overtakenEnd_lost : (∀ p, overtakenEnd.control p = .idle) ∧
    overtakenEnd.shared.shm.swapCmd.completed = false ∧
    overtakenEnd.shared.shm.swapCmd.action = .none := by
  decide +kernel

theorem lateAckEnd_late : lateAckEnd.control 1 = .storeCompleted 1 false ∧
    lateAckEnd.shared.shm.swapCmd.completed = false ∧
    lateAckEnd.shared.shm.swapCmd.cmdSeq = 2 := by
  decide +kernel

/-- An acknowledgement completes the next command, and a swap-out that was published is lost. -/
theorem overtaken_and_late :
    (¬ ∀ (st : ShmState) (run : List (CmdStep (Fin 3))), st.swapCmd.completed = true →
        st.swapCmd.action = .none →
        EachStep step CompletesOwn (init st) run) ∧
      ¬ ∀ (st : ShmState) (run : List (CmdStep (Fin 3))), st.swapCmd.completed = true →
        st.swapCmd.action = .none → Throughout step Published (init st) run := by
  constructor
  · intro h
    have hall := h oneProcess (lateAckRun ++ [.access 1]) rfl rfl
    rw [eachStep_append] at hall
    have howns : CompletesOwn lateAckEnd (.access 1) := hall.2.1
    obtain ⟨hpc, hcompl, hseq⟩ := lateAckEnd_late
    have := howns 1 false hpc hcompl
    rw [hseq] at this
    cases this
  · intro h
    have hall := h oneProcess overtakenRun rfl rfl
    have hlast : Published overtakenEnd := hall.last
    obtain ⟨hidle, hcompl, haction⟩ := overtakenEnd_lost
    have := hlast hidle hcompl
    rw [haction] at this
    cases this

end

end UbsVirt.Enpu
