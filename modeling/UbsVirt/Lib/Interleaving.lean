import Mathlib.Logic.Function.Basic

/-!
# Interleaved processes

Processes share a memory and each has a control state of its own. An atomic step is taken by
one process: it changes the memory and the control state of that process, and no other
control state. A property of every process is kept if the acting process establishes it for
itself and its step does not disturb it for the others.
-/

namespace UbsVirt.Interleaving

open Function

variable {ι σ L : Type*}

/-- A shared memory and the control states of the processes. -/
structure Config (ι σ L : Type*) where
  shared : σ
  control : ι → L

namespace Config

variable [DecidableEq ι] {c : Config ι σ L} {p q : ι} {r : σ × L}

def act (c : Config ι σ L) (p : ι) (r : σ × L) : Config ι σ L where
  shared := r.1
  control := update c.control p r.2

@[simp]
theorem act_shared : (c.act p r).shared = r.1 := rfl

@[simp]
theorem act_control_self : (c.act p r).control p = r.2 :=
  update_self ..

/-- A step leaves every other party's control state alone. -/
theorem act_control_of_ne (h : q ≠ p) : (c.act p r).control q = c.control q :=
  update_of_ne h ..

theorem act_self : c.act p (c.shared, c.control p) = c := by
  unfold act
  rw [update_eq_self]

/-- Of two steps of one process the second one decides. -/
theorem act_act {r' : σ × L} : (c.act p r).act p r' = c.act p r' := by
  unfold act
  rw [update_idem]

/-- The rule for properties of every process. -/
theorem forall_act {I : ι → L → σ → Prop} (h : ∀ q, I q (c.control q) c.shared)
    (hown : I p r.2 r.1) (hothers : ∀ q, q ≠ p → I q (c.control q) c.shared →
      I q (c.control q) r.1) (q : ι) :
    I q ((c.act p r).control q) (c.act p r).shared := by
  by_cases hq : q = p
  · subst hq
    rwa [act_control_self]
  · rw [act_control_of_ne hq]
    exact hothers q hq (h q)

/-- The rule for properties of every two processes. -/
theorem forall_act_pair {R : L → L → σ → Prop}
    (h : ∀ q q', q ≠ q' → R (c.control q) (c.control q') c.shared)
    (hfirst : ∀ q, q ≠ p → R r.2 (c.control q) r.1) (hsecond : ∀ q, q ≠ p → R (c.control q) r.2 r.1)
    (hothers : ∀ q q', q ≠ p → q' ≠ p → q ≠ q' → R (c.control q) (c.control q') c.shared →
      R (c.control q) (c.control q') r.1) (q q' : ι) (hne : q ≠ q') :
    R ((c.act p r).control q) ((c.act p r).control q') (c.act p r).shared := by
  by_cases hq : q = p
  · subst hq
    rw [act_control_self, act_control_of_ne hne.symm]
    exact hfirst q' hne.symm
  · rw [act_control_of_ne hq]
    by_cases hq' : q' = p
    · subst hq'
      rw [act_control_self]
      exact hsecond q hq
    · rw [act_control_of_ne hq']
      exact hothers q q' hq hq' hne (h q q' hne)

end Config

end UbsVirt.Interleaving
