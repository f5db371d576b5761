import Mathlib.Data.List.Basic

/-!
# Computations that may fail

A program that raises on the first check that does not hold is a computation in `Except`. What
is known once it returns is read off step by step: a sequence returns when both parts do, a check
when it holds, a loop when every round does.
-/

namespace UbsVirt.Fallible

universe u

variable {ε : Type*} {α β σ : Type u}

/-- Raise `e` if the condition holds. -/
def refuseIf (p : Prop) [Decidable p] (e : ε) : Except ε Unit :=
  if p then .error e else .ok ()

/-- The value that is there, or else raise `e`. -/
def require (a : Option α) (e : ε) : Except ε α :=
  match a with
  | none => .error e
  | some a => .ok a

theorem refuseIf_eq_ok {p : Prop} [Decidable p] {e : ε} {u : Unit} :
    refuseIf p e = .ok u ↔ ¬ p := by
  unfold refuseIf
  split
  · next hp => exact iff_of_false (fun h => nomatch h) (not_not_intro hp)
  · next hp => exact iff_of_true rfl hp

theorem require_eq_ok {a : Option α} {e : ε} {b : α} : require a e = .ok b ↔ a = some b := by
  cases a with
  | none => exact iff_of_false (fun h => nomatch h) (fun h => nomatch h)
  | some a =>
    constructor
    · intro h
      exact congrArg some (Except.ok.inj h)
    · rintro ⟨⟩
      rfl

theorem bind_eq_ok {x : Except ε α} {f : α → Except ε β} {b : β} :
    (x >>= f) = .ok b ↔ ∃ a, x = .ok a ∧ f a = .ok b := by
  cases x with
  | error e => exact iff_of_false (fun h => nomatch h) (fun ⟨_, h, _⟩ => nomatch h)
  | ok a =>
    constructor
    · intro h
      exact ⟨a, rfl, h⟩
    · rintro ⟨_, ⟨⟩, h⟩
      exact h

theorem pure_eq_ok {a b : α} : (pure a : Except ε α) = .ok b ↔ a = b :=
  ⟨fun h => Except.ok.inj h, fun h => congrArg _ h⟩

/-- What holds of the rounds done so far, when every round that returns keeps it, holds of the
whole loop when it returns. -/
theorem foldlM_ok_induction {f : σ → α → Except ε σ} {s s' : σ} {xs : List α}
    (P : List α → σ → Prop) (hnil : P [] s)
    (hstep : ∀ done x t t', P done t → f t x = .ok t' → P (done ++ [x]) t')
    (h : xs.foldlM f s = .ok s') : P xs s' := by
  -- the rounds done so far are generalised along with the state
  suffices hgo : ∀ (done : List α) (t : σ), P done t → xs.foldlM f t = .ok s' →
      P (done ++ xs) s' from hgo [] s hnil h
  clear h hnil
  induction xs with
  | nil =>
    intro done t hdone h
    cases h
    rwa [List.append_nil]
  | cons x xs ih =>
    intro done t hdone h
    rw [List.foldlM_cons, bind_eq_ok] at h
    obtain ⟨t', hx, hrest⟩ := h
    have := ih (done ++ [x]) t' (hstep done x t t' hdone hx) hrest
    rwa [List.append_assoc] at this

end UbsVirt.Fallible
