import Mathlib.Data.List.Basic

/-!
# Runs of a labelled step function

A system is a step function on states and labels; everything a step does not decide by
itself (which call is made, which request arrives, which library call fails) is in its
label. A run is a list of labels. This module states, once, how a property of single
steps becomes a property of whole runs: an invariant kept by every step that meets a
condition holds throughout every run whose steps all meet it, and a condition that is
exact at every step is exact for the run.
-/

namespace UbsVirt.Run

open List

variable {σ ι : Type*} (step : σ → ι → σ)

def exec (s : σ) (run : List ι) : σ :=
  run.foldl step s

/-- Every step of the run satisfies `C` in the state it is taken in. -/
def EachStep (C : σ → ι → Prop) : σ → List ι → Prop
  | _, [] => True
  | s, i :: run => C s i ∧ EachStep C (step s i) run

instance instDecidableEachStep (C : σ → ι → Prop) [∀ s i, Decidable (C s i)] :
    ∀ (s : σ) (run : List ι), Decidable (EachStep step C s run)
  | _, [] => isTrue trivial
  | s, i :: run =>
    have := instDecidableEachStep C (step s i) run
    inferInstanceAs (Decidable (C s i ∧ EachStep step C (step s i) run))

/-- Every state of the run, the first one included, satisfies `P`. -/
def Throughout (P : σ → Prop) : σ → List ι → Prop
  | s, [] => P s
  | s, i :: run => P s ∧ Throughout P (step s i) run

variable {step} {P Q : σ → Prop} {C D : σ → ι → Prop} {s : σ} {run : List ι}

@[simp]
theorem exec_cons (i : ι) : exec step s (i :: run) = exec step (step s i) run := rfl

theorem exec_append (run' : List ι) :
    exec step s (run ++ run') = exec step (exec step s run) run' :=
  foldl_append

theorem Throughout.head (h : Throughout step P s run) : P s := by
  cases run with
  | nil => exact h
  | cons i run => exact h.1

theorem Throughout.mono (h : Throughout step P s run) (hpq : ∀ s, P s → Q s) :
    Throughout step Q s run := by
  induction run generalizing s with
  | nil => exact hpq s h
  | cons i run ih => exact ⟨hpq s h.1, ih h.2⟩

/-- The last state of a run is one of its states. -/
theorem Throughout.last (h : Throughout step P s run) : P (exec step s run) := by
  induction run generalizing s with
  | nil => exact h
  | cons i run ih => exact ih h.2

theorem eachStep_append {run' : List ι} : EachStep step C s (run ++ run') ↔
      EachStep step C s run ∧ EachStep step C (exec step s run) run' := by
  induction run generalizing s with
  | nil => exact ⟨fun h => ⟨trivial, h⟩, fun h => h.2⟩
  | cons i run ih => exact (and_congr_right fun _ => ih).trans and_assoc.symm

theorem EachStep.and (hC : EachStep step C s run) (hD : EachStep step D s run) :
    EachStep step (fun s i => C s i ∧ D s i) s run := by
  induction run generalizing s with
  | nil => trivial
  | cons i run ih => exact ⟨⟨hC.1, hD.1⟩, ih hC.2 hD.2⟩

theorem eachStep_congr (h : ∀ i ∈ run, ∀ s, C s i ↔ D s i) :
    EachStep step C s run ↔ EachStep step D s run := by
  induction run generalizing s with
  | nil => rfl
  | cons i run ih =>
    exact and_congr (h i mem_cons_self s) (ih fun j hj => h j (mem_cons_of_mem i hj))

theorem EachStep.exists_of_mem {i : ι} (h : EachStep step C s run) (hi : i ∈ run) : ∃ t, C t i := by
  induction run generalizing s with
  | nil => cases hi
  | cons j run ih =>
    rcases mem_cons.mp hi with rfl | hi
    · exact ⟨s, h.1⟩
    · exact ih h.2 hi

theorem EachStep.imp (hC : EachStep step C s run) (h : ∀ s i, C s i → D s i) :
    EachStep step D s run := by
  induction run generalizing s with
  | nil => trivial
  | cons i run ih => exact ⟨h s i hC.1, ih hC.2⟩

theorem eachStep_of_forall (h : ∀ s i, C s i) : EachStep step C s run := by
  induction run generalizing s with
  | nil => trivial
  | cons i run ih => exact ⟨h s i, ih⟩

/-- The invariant rule: what holds first and is kept by every step that meets `C` holds
throughout every run whose steps all meet `C`. -/
theorem throughout_of_step (hP : P s) (hstep : ∀ s i, P s → C s i → P (step s i))
    (hC : EachStep step C s run) : Throughout step P s run := by
  induction run generalizing s with
  | nil => exact hP
  | cons i run ih => exact ⟨hP, ih (hstep s i hP hC.1) hC.2⟩

/-- The exact form for a property that follows from an invariant: if the invariant is kept
by every step that meets `C`, and every other step breaks `P` at once, then `P` holds
throughout a run exactly when all its steps meet `C`. -/
theorem throughout_iff_of_invariant {I : σ → Prop} (hI : I s) (hP : ∀ s, I s → P s)
    (hkeep : ∀ s i, I s → C s i → I (step s i)) (hbreak : ∀ s i, I s → ¬ C s i → ¬ P (step s i)) :
    Throughout step P s run ↔ EachStep step C s run := by
  induction run generalizing s with
  | nil => exact ⟨fun _ => trivial, fun _ => hP s hI⟩
  | cons i run ih =>
    constructor
    · rintro ⟨-, h⟩
      by_cases hC : C s i
      · exact ⟨hC, (ih (hkeep s i hI hC)).mp h⟩
      · exact absurd h.head (hbreak s i hI hC)
    · rintro ⟨hC, h⟩
      exact ⟨hP s hI, (ih (hkeep s i hI hC)).mpr h⟩

/-- The rule for properties of steps: if steps that meet `C` keep an invariant, and `C`
implies `D` in its states, then a run whose steps all meet `C` has steps that all meet
`D`. -/
theorem eachStep_of_invariant (hP : P s) (hkeep : ∀ s i, P s → C s i → P (step s i))
    (hcd : ∀ s i, P s → C s i → D s i) (hC : EachStep step C s run) : EachStep step D s run := by
  induction run generalizing s with
  | nil => trivial
  | cons i run ih => exact ⟨hcd s i hP hC.1, ih (hkeep s i hP hC.1) hC.2⟩

/-- The progress rule: if every step keeps `P`, one of the steps of the run leads from `P` to
`Q`, and every step keeps `Q`, then the run ends in `Q`. -/
theorem exec_establishes {i : ι} (hi : i ∈ run) (hP : P s) (hkeep : ∀ s j, P s → P (step s j))
    (hreach : ∀ s, P s → Q (step s i)) (hstay : ∀ s j, Q s → Q (step s j)) :
    Q (exec step s run) := by
  obtain ⟨before, after, rfl⟩ := append_of_mem hi
  rw [exec_append, exec_cons]
  have hbefore : P (exec step s before) := foldlRecOn before step hP fun s hs j _ => hkeep s j hs
  exact foldlRecOn after step (hreach _ hbefore) fun s hs j _ => hstay s j hs

/-! ### Programs

An operation that takes several steps, each chosen after looking at the state the ones before
have led to, is a program: a function from the state it starts in to the steps it takes. -/

variable (step) in
/-- Steps taken from `s`, and the state they lead to. -/
structure Trace (s : σ) where
  state : σ
  steps : List ι
  exec_eq : exec step s steps = state

variable (step) in
def Trace.start (s : σ) : Trace step s := ⟨s, [], rfl⟩

def Trace.emit (t : Trace step s) (i : ι) : Trace step s where
  state := step t.state i
  steps := t.steps ++ [i]
  exec_eq := by rw [exec_append, t.exec_eq]; rfl

variable (step) (C) in
/-- The steps up to the first one that does not satisfy `C`, with it. -/
def cut [∀ s i, Decidable (C s i)] : σ → List ι → List ι
  | _, [] => []
  | s, i :: run => i :: if C s i then cut (step s i) run else []

variable (C) in
/-- The program ends with the first step that does not satisfy `C`. -/
def Trace.cut [∀ s i, Decidable (C s i)] (t : Trace step s) : Trace step s where
  state := exec step s (Run.cut step C s t.steps)
  steps := Run.cut step C s t.steps
  exec_eq := rfl

/-- When all steps of what is left satisfy `C`, nothing has been cut off. -/
theorem cut_eq_self [∀ s i, Decidable (C s i)] (h : EachStep step C s (cut step C s run)) :
    cut step C s run = run := by
  induction run generalizing s with
  | nil => rfl
  | cons i run ih =>
    unfold cut at h ⊢
    rw [if_pos h.1] at h ⊢
    rw [ih h.2]

theorem Trace.cut_state [∀ s i, Decidable (C s i)] (t : Trace step s)
    (h : EachStep step C s (t.cut C).steps) : (t.cut C).state = t.state := by
  rw [← (t.cut C).exec_eq, ← t.exec_eq]
  exact congrArg (exec step s) (cut_eq_self h)

variable {τ : Type*} (program : (s : σ) → τ → Trace step s)

def unroll : σ → List τ → List ι
  | _, [] => []
  | s, p :: ps => (program s p).steps ++ unroll (program s p).state ps

theorem unroll_append (ps qs : List τ) : unroll program s (ps ++ qs) =
    unroll program s ps ++ unroll program (exec step s (unroll program s ps)) qs := by
  induction ps generalizing s with
  | nil => rfl
  | cons p ps ih =>
    rw [cons_append, unroll, unroll, ih, append_assoc, exec_append, (program s p).exec_eq]

/-- One more program at the end of a run. -/
theorem exec_unroll_concat (ps : List τ) (p : τ) : exec step s (unroll program s (ps ++ [p])) =
    (program (exec step s (unroll program s ps)) p).state := by
  rw [unroll_append, exec_append, unroll, unroll, append_nil, Trace.exec_eq]

end UbsVirt.Run
