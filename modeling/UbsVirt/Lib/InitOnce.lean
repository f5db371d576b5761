import UbsVirt.Lib.Interleaving

/-!
# Initialization by one of several processes

Processes that find a segment uninitialized agree on one of them, which runs the initialization;
the others return once it has finished. Such a protocol announces in the shared memory how far the
initialization is. It works as long as the processes do what fits the announcement.
-/

namespace UbsVirt.InitOnce

open Interleaving

/-- Where a process is, as the others see it. -/
inductive Role where
  | outside
  | inside
  | returned

/-- The roles of the control states, how often the body has been begun, and what the shared memory
announces: that nobody has begun, that a process is inside, that one has finished. -/
structure Protocol (σ L : Type*) where
  role : L → Role
  begun : σ → Nat
  fresh : σ → Prop
  busy : σ → Prop
  ready : σ → Prop

namespace Protocol

variable {ι σ L : Type*} {P : Protocol σ L} {s : Config ι σ L} {p : ι}

/-- At most one process has begun the body, and before a process returns one has finished it. -/
def Once (P : Protocol σ L) (s : Config ι σ L) : Prop :=
  P.begun s.shared ≤ 1 ∧ ∀ p, P.role (s.control p) = .returned →
    P.begun s.shared = 1 ∧ ∀ q, P.role (s.control q) ≠ .inside

/-- The processes are where the announcement says. -/
inductive Agreed (P : Protocol σ L) (s : Config ι σ L) : Prop
  | fresh (announced : P.fresh s.shared) (begun : P.begun s.shared = 0)
      (roles : ∀ q, P.role (s.control q) = .outside)
  | busy (p : ι) (announced : P.busy s.shared) (begun : P.begun s.shared = 1)
      (self : P.role (s.control p) = .inside)
      (others : ∀ q, q ≠ p → P.role (s.control q) = .outside)
  | ready (announced : P.ready s.shared) (begun : P.begun s.shared = 1)
      (roles : ∀ q, P.role (s.control q) ≠ .inside)

theorem Agreed.once (h : P.Agreed s) : P.Once s := by
  cases h with
  | fresh _ hbegun hroles => exact ⟨by omega, by simp [hroles]⟩
  | ready _ hbegun hroles => exact ⟨by omega, fun _ _ => ⟨hbegun, hroles⟩⟩
  | busy p _ hbegun hself hothers => exact ⟨by omega, by grind⟩

/-- What is announced while a process is inside, and that it is alone. -/
theorem Agreed.of_inside (h : P.Agreed s) (hp : P.role (s.control p) = .inside) :
    P.busy s.shared ∧ P.begun s.shared = 1 ∧ ∀ q, q ≠ p → P.role (s.control q) = .outside := by
  cases h with
  | fresh _ _ hroles => simp [hroles p] at hp
  | ready _ _ hroles => exact absurd hp (hroles p)
  | busy q hbusy hbegun _ hothers => exact ⟨hbusy, hbegun, by grind⟩

variable [DecidableEq ι] {r : σ × L} {l : L}

theorem role_act (q : ι) : P.role ((s.act p r).control q) =
    if q = p then P.role r.2 else P.role (s.control q) := by
  split
  · next hqp => simp [hqp]
  · next hqp => rw [Config.act_control_of_ne hqp]

/-- A process looks around and stays where it is. -/
theorem Agreed.stay (h : P.Agreed s) (hl : P.role l = P.role (s.control p)) :
    P.Agreed (s.act p (s.shared, l)) := by
  have hsame : ∀ q, P.role ((s.act p (s.shared, l)).control q) = P.role (s.control q) := by
    grind [role_act]
  cases h with
  | fresh hw hbegun hroles => exact .fresh hw hbegun (by simpa [hsame] using hroles)
  | ready hw hbegun hroles => exact .ready hw hbegun (by simpa [hsame] using hroles)
  | busy q hw hbegun hself hothers =>
    exact .busy q hw hbegun (by simpa [hsame] using hself) (by simpa [hsame] using hothers)

/-- A process finds the segment ready, and returns. -/
theorem Agreed.follow (h : P.Agreed s) (hfresh : ¬ P.fresh s.shared) (hbusy : ¬ P.busy s.shared)
    (hl : P.role l = .returned) : P.Agreed (s.act p (s.shared, l)) := by
  cases h with
  | fresh hw => exact absurd hw hfresh
  | busy _ hw => exact absurd hw hbusy
  | ready hw hbegun hroles => exact .ready hw hbegun (by grind [role_act])

/-- A process enters the body while none is in it and none has finished it. -/
theorem Agreed.enter (h : P.Agreed s) (hready : ¬ P.ready s.shared)
    (hnone : ∀ q, P.role (s.control q) ≠ .inside) (hl : P.role r.2 = .inside)
    (hbusy : P.busy r.1) (hbegun : P.begun r.1 = P.begun s.shared + 1) :
    P.Agreed (s.act p r) := by
  cases h with
  | ready hw => exact absurd hw hready
  | busy q _ _ hself => exact absurd hself (hnone q)
  | fresh _ hzero hroles =>
    exact .busy p hbusy (hbegun.trans (by rw [hzero])) (by simp [hl]) (by grind [role_act])

/-- The process inside goes on there, or returns when it has finished. -/
theorem Agreed.work (h : P.Agreed s) (hp : P.role (s.control p) = .inside)
    (hbegun : P.begun r.1 = P.begun s.shared)
    (hl : P.role r.2 = .inside ∧ P.busy r.1 ∨ P.role r.2 = .returned ∧ P.ready r.1) :
    P.Agreed (s.act p r) := by
  obtain ⟨-, hone, hothers⟩ := h.of_inside hp
  rcases hl with ⟨hl, hw⟩ | ⟨hl, hw⟩
  · exact .busy p hw (hbegun.trans hone) (by simp [hl]) (by grind [role_act])
  · exact .ready hw (hbegun.trans hone) (by grind [role_act])

end Protocol

end UbsVirt.InitOnce
