import UbsVirt.Lib.InitOnce
import UbsVirt.Lib.Run

/-!
# Initialization of the MCS segment

The right to initialize is claimed by a compare-and-swap on `magic_number`. The winner clears the
whole segment, `magic_number` included, so until it publishes a second compare-and-swap that
expects zero succeeds as well. Source: `mcs/src/mcs_sched.c:47-115`.
-/

namespace UbsVirt.Mcs

open Interleaving InitOnce Run

def mcsMagicInitializing : Nat := 0x4D435300

def mcsMagicInitialized : Nat := 0x4D435301

/-- The word the processes agree on, and the number of calls of `mcs_shared_state_init`. -/
structure InitState where
  magicNumber : Nat
  begun : Nat

/-- Where a call of `mcs_shm_init` is: before its load, its compare-and-swap, the `memset`, the
initialization of the mutex, the release store, or back with 0. -/
inductive InitPc where
  | look
  | cas (observed : Nat)
  | clear
  | mutexInit
  | publish
  | done
  deriving DecidableEq

/-- The loop, lines 98-111, with the value just observed. -/
def InitPc.loop (observed : Nat) : InitPc :=
  if observed = mcsMagicInitialized then .done
  else if observed = mcsMagicInitializing then .look
  else .cas observed

/-- The next access of `mcs_shm_init`. -/
def initAccess (c : InitState) : InitPc → InitState × InitPc
  | .look => (c, .loop c.magicNumber)
  | .cas observed =>
    if c.magicNumber = observed then (⟨mcsMagicInitializing, c.begun + 1⟩, .clear)
    else (c, .loop c.magicNumber)
  | .clear => ({ c with magicNumber := 0 }, .mutexInit)
  | .mutexInit => (c, .publish)
  | .publish => ({ c with magicNumber := mcsMagicInitialized }, .done)
  | .done => (c, .done)

/-- A process is inside from its claim to its release store. -/
def InitPc.role : InitPc → Role
  | .look | .cas _ => .outside
  | .clear | .mutexInit | .publish => .inside
  | .done => .returned

/-- While a process is inside, the word is its claim, or cleared. -/
def shmInit : Protocol InitState InitPc where
  role := InitPc.role
  begun := InitState.begun
  fresh c := c.magicNumber = 0
  busy c := c.magicNumber = 0 ∨ c.magicNumber = mcsMagicInitializing
  ready c := c.magicNumber = mcsMagicInitialized

abbrev Initializing (ι : Type) := Config ι InitState InitPc

namespace Initializing

variable {ι : Type} [DecidableEq ι]

def step (s : Initializing ι) (p : ι) : Initializing ι :=
  s.act p (initAccess s.shared (s.control p))

def start (ι : Type) : Initializing ι := ⟨⟨0, 0⟩, fun _ => .look⟩

/-- No process makes its compare-and-swap while another one has cleared the segment and not
published it. -/
def OutsideWindow (s : Initializing ι) (p : ι) : Prop :=
  ∀ observed, s.control p = .cas observed →
    ∀ q, s.control q ≠ .mutexInit ∧ s.control q ≠ .publish

/-- What holds of a process: it expects zero, and its claim stands until it clears. -/
def Expects (_ : ι) (pc : InitPc) (c : InitState) : Prop :=
  (∀ observed, pc = .cas observed → observed = 0) ∧
    (pc = .clear → c.magicNumber = mcsMagicInitializing)

/-- The invariant of the protocol. -/
structure InitInv (s : Initializing ι) : Prop where
  agreed : shmInit.Agreed s
  expects : ∀ q, Expects q (s.control q) s.shared

variable {s : Initializing ι} {p : ι}

omit [DecidableEq ι] in
theorem InitInv.magicNumber (h : InitInv s) : s.shared.magicNumber = 0 ∨
    s.shared.magicNumber = mcsMagicInitializing ∨ s.shared.magicNumber = mcsMagicInitialized := by
  cases h.agreed with
  | fresh hw => exact .inl hw
  | busy _ hw => exact hw.imp_right .inl
  | ready hw => exact .inr (.inr hw)

/-- A process that is not inside goes round the loop. -/
theorem InitInv.loop (h : InitInv s) (hp : (s.control p).role = .outside) :
    InitInv (s.act p (s.shared, .loop s.shared.magicNumber)) := by
  have hword := h.magicNumber
  refine ⟨?_, Config.forall_act h.expects ?_ fun _ _ hq => hq⟩
  · unfold InitPc.loop
    split
    · next hready =>
      refine h.agreed.follow ?_ ?_ rfl
      · simp [shmInit, hready, mcsMagicInitialized]
      · simp [shmInit, hready, mcsMagicInitialized, mcsMagicInitializing]
    · split <;> exact h.agreed.stay hp.symm
  · simp only [Expects, InitPc.loop]
    grind

/-- A process inside makes an access that keeps it there or takes it out. -/
theorem InitInv.inside (h : InitInv s) (hp : (s.control p).role = .inside) {r : InitState × InitPc}
    (hagreed : shmInit.Agreed (s.act p r)) (hcas : ∀ observed, r.2 ≠ .cas observed)
    (hclear : r.2 ≠ .clear) : InitInv (s.act p r) := by
  refine ⟨hagreed, Config.forall_act h.expects ⟨fun o ho => absurd ho (hcas o), fun hc =>
    absurd hc hclear⟩ fun q hqp hq => ⟨hq.1, fun hc => ?_⟩⟩
  have hout := (h.agreed.of_inside hp).2.2 q hqp
  rw [hc] at hout
  cases hout

/-- Every access outside the window keeps the invariant. -/
theorem InitInv.step (h : InitInv s) (hp : s.OutsideWindow p) : InitInv (s.step p) := by
  simp only [Initializing.step]
  cases hpc : s.control p with
  | look => exact h.loop (by rw [hpc]; rfl)
  | done => exact ⟨h.agreed.stay (by rw [hpc]), Config.forall_act h.expects ⟨nofun, nofun⟩
      fun _ _ hq => hq⟩
  | cas observed =>
    simp only [initAccess]
    split
    · next hzero =>
      rw [(h.expects p).1 observed hpc] at hzero
      -- a process inside would not have cleared the segment, so the word would not be zero
      have hnone : ∀ q, (s.control q).role ≠ .inside := by
        intro q hq
        have hwindow := hp observed hpc q
        have hclear := (h.expects q).2
        cases hcq : s.control q <;> simp_all [InitPc.role, mcsMagicInitializing]
      refine ⟨h.agreed.enter ?_ hnone rfl (.inr rfl) rfl, Config.forall_act h.expects
        ⟨nofun, fun _ => rfl⟩ fun q _ hq => ⟨hq.1, fun _ => rfl⟩⟩
      simp [shmInit, hzero, mcsMagicInitialized]
    · exact h.loop (by rw [hpc]; rfl)
  | clear =>
    have hin : (s.control p).role = .inside := by rw [hpc]; rfl
    exact h.inside hin (h.agreed.work hin rfl (.inl ⟨rfl, .inl rfl⟩)) nofun nofun
  | mutexInit =>
    have hin : (s.control p).role = .inside := by rw [hpc]; rfl
    exact h.inside hin (h.agreed.work hin rfl (.inl ⟨rfl, (h.agreed.of_inside hin).1⟩)) nofun nofun
  | publish =>
    have hin : (s.control p).role = .inside := by rw [hpc]; rfl
    exact h.inside hin (h.agreed.work hin rfl (.inr ⟨rfl, rfl⟩)) nofun nofun

/-- In every interleaving in which no compare-and-swap falls between the winner's `memset` and its
release store, one process initializes the segment and the others return after it. -/
theorem initializedOnce (run : List ι) (hrun : EachStep step OutsideWindow (start ι) run) :
    Throughout step shmInit.Once (start ι) run := by
  have hinv : Throughout step InitInv (start ι) run :=
    throughout_of_step ⟨.fresh rfl rfl fun _ => rfl, fun _ => ⟨nofun, nofun⟩⟩
      (fun s p hs hp => hs.step hp) hrun
  exact hinv.mono fun s hs => hs.agreed.once

theorem initializedOnce_of_two :
    Throughout step shmInit.Once (start (Fin 2)) [0, 1, 0, 0, 0, 0, 1] := by
  apply initializedOnce
  refine ⟨nofun, nofun, ?_, nofun, nofun, nofun, ?_, trivial⟩
  · exact fun _ _ => by decide
  · exact fun _ _ => by decide

/-- The second process has looked before the first one claimed, and makes its compare-and-swap
after the `memset`: both run `mcs_shared_state_init`. -/
theorem initialized_twice : ¬ Throughout step shmInit.Once (start (Fin 2)) [0, 1, 0, 0, 1] := by
  intro h
  exact absurd h.last.1 (by decide)

end Initializing

end UbsVirt.Mcs
