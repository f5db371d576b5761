import UbsVirt.Lib.Interleaving
import UbsVirt.Lib.Run

/-!
# Programs that await answers

A program has ended, or it has made a call and goes on with the answer. What an answer can be,
and what the call changes, is not part of the program: one program can be run alone, or many can
be run together, each waiting for its own calls while the others go on.

A protocol says which calls a program may make and which answers it has to reckon with, in terms
of a private state of the program that no one else changes. That a program follows a protocol is
computed from the program (`Prog.wp`), call by call. If the surroundings answer as the protocol
says, as long as all programs follow it, then they all follow it in every interleaving
(`Sound.covered`).

Routines are programs with a local state that may raise an exception, as may every call.
-/

namespace UbsVirt.Await

open Interleaving Run

/-- A program that makes calls in `C`; the answers to `c` are in `A c`. -/
inductive Prog (C : Type) (A : C → Type) (α : Type) where
  | ret (a : α)
  | call (c : C) (next : A c → Prog C A α)

/-- In the private state `g` a program may make the call `c` if `pre g c`; it is then answered
and has a private state as `post` says. -/
structure Protocol (C : Type) (A : C → Type) (Γ : Type) where
  pre : Γ → C → Prop
  post : Γ → (c : C) → A c → Γ → Prop

variable {C : Type} {A : C → Type} {α β Γ σ ι O : Type} {p : Prog C A α}

namespace Prog

def bind : Prog C A α → (α → Prog C A β) → Prog C A β
  | .ret a, f => f a
  | .call c next, f => .call c fun a => (next a).bind f

/-- The program follows the protocol and ends with `Q`. -/
def wp (P : Protocol C A Γ) (Q : Γ → α → Prop) : Prog C A α → Γ → Prop
  | .ret a, g => Q g a
  | .call c next, g => P.pre g c ∧ ∀ a g', P.post g c a g' → (next a).wp P Q g'

variable {P : Protocol C A Γ} {g : Γ}

theorem wp_bind {Q : Γ → β → Prop} {f : α → Prog C A β} (p : Prog C A α) :
    (p.bind f).wp P Q g ↔ p.wp P (fun g' a => (f a).wp P Q g') g := by
  induction p generalizing g with
  | ret a => rfl
  | call c next ih =>
    apply and_congr_right
    intro _
    exact forall_congr' fun a => forall_congr' fun g' => imp_congr_right fun _ => ih a

theorem wp_mono {Q Q' : Γ → α → Prop} (hQ : ∀ g a, Q g a → Q' g a)
    (h : p.wp P Q g) : p.wp P Q' g := by
  induction p generalizing g with
  | ret a => exact hQ g a h
  | call c next ih => exact ⟨h.1, fun a g' hpost => ih a (h.2 a g' hpost)⟩

theorem wp_congr {Q Q' : Γ → α → Prop} (hQ : ∀ g a, Q g a ↔ Q' g a) : p.wp P Q g ↔ p.wp P Q' g :=
  ⟨wp_mono fun g a => (hQ g a).mp, wp_mono fun g a => (hQ g a).mpr⟩

/-! ### Alone -/

/-- Run a program alone. There is no result if a call is never answered. -/
def run (answer : σ → (c : C) → σ × Option (A c)) : Prog C A α → σ → Option (α × σ)
  | .ret a, s => some (a, s)
  | .call c next, s =>
    match answer s c with
    | (s', some a) => (next a).run answer s'
    | (_, none) => none

end Prog

/-- The protocol of a program that is alone: its private state is the whole state. -/
def Protocol.alone (answer : σ → (c : C) → σ × Option (A c)) : Protocol C A σ where
  pre s c := (answer s c).2.isSome
  post s c a s' := answer s c = (s', some a)

theorem Prog.run_of_wp {answer : σ → (c : C) → σ × Option (A c)} {Q : σ → α → Prop} {s : σ}
    (h : p.wp (.alone answer) Q s) :
    ∃ a s', p.run answer s = some (a, s') ∧ Q s' a := by
  induction p generalizing s with
  | ret a => exact ⟨a, s, rfl, h⟩
  | call c next ih =>
    obtain ⟨a, ha⟩ := Option.isSome_iff_exists.mp h.1
    have hanswer : answer s c = ((answer s c).1, some a) := Prod.ext rfl ha
    obtain ⟨b, s', hrun, hQ⟩ := ih a (h.2 a _ hanswer)
    refine ⟨b, s', ?_, hQ⟩
    unfold Prog.run
    rwa [hanswer]

/-! ### Together -/

section

variable [DecidableEq ι]

/-- One program of many takes a step: its call is answered, or it goes on waiting. -/
def step (answer : σ → ι → O → (c : C) → σ × Option (A c))
    (cfg : Config ι σ (Prog C A α)) (label : ι × O) : Config ι σ (Prog C A α) :=
  match cfg.control label.1 with
  | .ret _ => cfg
  | .call c next =>
    match answer cfg.shared label.1 label.2 c with
    | (s, some a) => cfg.act label.1 (s, next a)
    | (s, none) => { cfg with shared := s }

/-- The invariant `I` of the shared state and all private states is kept by every call that the
protocol allows. -/
structure Sound (answer : σ → ι → O → (c : C) → σ × Option (A c)) (P : Protocol C A Γ)
    (I : σ → (ι → Γ) → Prop) : Prop where
  answered : ∀ {s g i o c s' a}, I s g → P.pre (g i) c → answer s i o c = (s', some a) →
    ∃ g', P.post (g i) c a g' ∧ I s' (Function.update g i g')
  waits : ∀ {s g i o c s'}, I s g → P.pre (g i) c → answer s i o c = (s', none) → I s' g

/-- There are private states with the invariant in which all programs follow the protocol. -/
def Covered (P : Protocol C A Γ) (I : σ → (ι → Γ) → Prop) (Q : Γ → α → Prop)
    (cfg : Config ι σ (Prog C A α)) : Prop :=
  ∃ g, I cfg.shared g ∧ ∀ i, (cfg.control i).wp P Q (g i)

variable {answer : σ → ι → O → (c : C) → σ × Option (A c)} {P : Protocol C A Γ}
  {I : σ → (ι → Γ) → Prop} {Q : Γ → α → Prop} {cfg : Config ι σ (Prog C A α)}

theorem Sound.step (h : Sound answer P I) (hcfg : Covered P I Q cfg) (label : ι × O) :
    Covered P I Q (step answer cfg label) := by
  obtain ⟨g, hI, hwp⟩ := hcfg
  unfold Await.step
  split
  · exact ⟨g, hI, hwp⟩
  · next c next hcall =>
    have hown := hwp label.1
    rw [hcall] at hown
    split
    · next s a hanswer =>
      obtain ⟨g', hpost, hI'⟩ := h.answered hI hown.1 hanswer
      refine ⟨Function.update g label.1 g', hI', ?_⟩
      intro i
      by_cases hi : i = label.1
      · subst hi
        rw [Config.act_control_self, Function.update_self]
        exact hown.2 a g' hpost
      · rw [Config.act_control_of_ne hi, Function.update_of_ne hi]
        exact hwp i
    · next s hanswer => exact ⟨g, h.waits hI hown.1 hanswer, hwp⟩

/-- In every interleaving all programs keep to the protocol. -/
theorem Sound.covered (h : Sound answer P I) (hcfg : Covered P I Q cfg) (run : List (ι × O)) :
    Throughout (Await.step answer) (Covered P I Q) cfg run :=
  throughout_of_step hcfg (fun _ label hcfg _ => h.step hcfg label)
    (eachStep_of_forall (C := fun _ _ => True) fun _ _ => trivial)

omit [DecidableEq ι] in
theorem Covered.ended (h : Covered P I Q cfg) {i : ι} {a : α} (hend : cfg.control i = .ret a) :
    ∃ g, I cfg.shared g ∧ Q (g i) a := by
  obtain ⟨g, hI, hwp⟩ := h
  have hown := hwp i
  rw [hend] at hown
  exact ⟨g, hI, hown⟩

end

/-! ### Routines -/

/-- A program with a local state in `S` that may raise an exception in `E`; a call is answered by
a value in `R c` or by an exception. -/
def Routine (C : Type) (R : C → Type) (E S α : Type) : Type :=
  S → Prog C (fun c => Except E (R c)) (Except E α × S)

namespace Routine

variable {R : C → Type} {E S : Type}

def pure (a : α) : Routine C R E S α := fun s => .ret (.ok a, s)

def bind (t : Routine C R E S α) (f : α → Routine C R E S β) : Routine C R E S β := fun s =>
  (t s).bind fun r =>
    match r.1 with
    | .ok a => f a r.2
    | .error e => .ret (.error e, r.2)

instance : Monad (Routine C R E S) where
  pure := Routine.pure
  bind := Routine.bind

def raise (e : E) : Routine C R E S α := fun s => .ret (.error e, s)

def tryExcept (t : Routine C R E S α) (handler : E → Routine C R E S α) : Routine C R E S α := fun s =>
  (t s).bind fun r =>
    match r.1 with
    | .ok a => .ret (.ok a, r.2)
    | .error e => handler e r.2

/-- The last part is done in any case; if it raises, that exception stays. -/
def tryFinally (t : Routine C R E S α) (last : Routine C R E S Unit) : Routine C R E S α := fun s =>
  (t s).bind fun r =>
    (last r.2).bind fun r' =>
      match r'.1 with
      | .ok _ => .ret (r.1, r'.2)
      | .error e => .ret (.error e, r'.2)

def call (c : C) : Routine C R E S (R c) := fun s => .call c fun r => .ret (r, s)

def get : Routine C R E S S := fun s => .ret (.ok s, s)

def modify (f : S → S) : Routine C R E S Unit := fun s => .ret (.ok (), f s)

def when (c : Prop) [Decidable c] (t : Routine C R E S Unit) : Routine C R E S Unit :=
  if c then t else Routine.pure ()

def ofExcept : Except E α → Routine C R E S α
  | .ok a => Routine.pure a
  | .error e => raise e

/-- The routine follows the protocol and ends with `Q`, from the private state `g` and the local
state `s`. -/
def wp (P : Protocol C (fun c => Except E (R c)) Γ) (Q : Γ → S → Except E α → Prop)
    (t : Routine C R E S α) (g : Γ) (s : S) : Prop :=
  (t s).wp P (fun g' r => Q g' r.2 r.1) g

variable {P : Protocol C (fun c => Except E (R c)) Γ} {Q : Γ → S → Except E α → Prop} {g : Γ}
  {s : S}

variable {t : Routine C R E S α}

theorem wp_mono {Q' : Γ → S → Except E α → Prop}
    (hQ : ∀ g s r, Q g s r → Q' g s r) (h : t.wp P Q g s) : t.wp P Q' g s :=
  Prog.wp_mono (fun g r hr => hQ g r.2 r.1 hr) h

@[simp]
theorem wp_get {Q : Γ → S → Except E S → Prop} :
    (get : Routine C R E S S).wp P Q g s ↔ Q g s (.ok s) := Iff.rfl

@[simp]
theorem wp_modify {Q : Γ → S → Except E Unit → Prop} (f : S → S) :
    (modify f : Routine C R E S Unit).wp P Q g s ↔ Q g (f s) (.ok ()) := Iff.rfl

@[simp]
theorem wp_ofExcept (r : Except E α) : (ofExcept r : Routine C R E S α).wp P Q g s ↔ Q g s r := by
  cases r with
  | ok a => rfl
  | error e => rfl

@[simp]
theorem wp_call {c : C} {Q : Γ → S → Except E (R c) → Prop} :
    (call c : Routine C R E S (R c)).wp P Q g s ↔
      P.pre g c ∧ ∀ r g', P.post g c r g' → Q g' s r := Iff.rfl

/-- What follows a routine runs if the routine has not raised an exception. -/
@[simp]
theorem wp_bind {t : Routine C R E S β} {f : β → Routine C R E S α} :
    (t >>= f).wp P Q g s ↔ t.wp P (fun g' s' r =>
      match r with
      | .ok a => (f a).wp P Q g' s'
      | .error e => Q g' s' (.error e)) g s := by
  refine (Prog.wp_bind _).trans (Prog.wp_congr ?_)
  rintro g' ⟨r, s'⟩
  cases r with
  | ok a => rfl
  | error e => rfl

@[simp]
theorem wp_tryExcept {handler : E → Routine C R E S α} :
    (t.tryExcept handler).wp P Q g s ↔ t.wp P (fun g' s' r =>
      match r with
      | .ok a => Q g' s' (.ok a)
      | .error e => (handler e).wp P Q g' s') g s := by
  refine (Prog.wp_bind _).trans (Prog.wp_congr ?_)
  rintro g' ⟨r, s'⟩
  cases r with
  | ok a => rfl
  | error e => rfl

@[simp]
theorem wp_tryFinally {last : Routine C R E S Unit} :
    (t.tryFinally last).wp P Q g s ↔ t.wp P (fun g' s' r => last.wp P (fun g'' s'' r' =>
      match r' with
      | .ok _ => Q g'' s'' r
      | .error e => Q g'' s'' (.error e)) g' s') g s := by
  refine (Prog.wp_bind _).trans (Prog.wp_congr ?_)
  rintro g' ⟨r, s'⟩
  refine (Prog.wp_bind _).trans (Prog.wp_congr ?_)
  rintro g'' ⟨r', s''⟩
  cases r' with
  | ok a => rfl
  | error e => rfl

@[simp]
theorem wp_ite {c : Prop} [Decidable c] {t' : Routine C R E S α} :
    (if c then t else t').wp P Q g s ↔ if c then t.wp P Q g s else t'.wp P Q g s := by
  split <;> rfl

/-! ### Routines that keep something -/

/-- The routine follows the protocol from any state and does not change what `obs` shows of it,
whether it ends normally or not. -/
def Keeps {ω : Type} (P : Protocol C (fun c => Except E (R c)) Γ) (obs : Γ → S → ω)
    (t : Routine C R E S α) : Prop :=
  ∀ g s, t.wp P (fun g' s' _ => obs g' s' = obs g s) g s

namespace Keeps

variable {ω : Type} {obs : Γ → S → ω} {t t' : Routine C R E S α} {f : α → Routine C R E S β}

theorem wp (h : t.Keeps P obs) (hQ : ∀ g' s' r, obs g' s' = obs g s → Q g' s' r) : t.wp P Q g s :=
  wp_mono hQ (h g s)

theorem pure (a : α) : (Pure.pure a : Routine C R E S α).Keeps P obs :=
  fun _ _ => rfl

theorem raise (e : E) : (Routine.raise e : Routine C R E S α).Keeps P obs :=
  fun _ _ => rfl

theorem get : (Routine.get : Routine C R E S S).Keeps P obs :=
  fun _ _ => rfl

theorem modify {f : S → S} (hf : ∀ g s, obs g (f s) = obs g s) :
    (Routine.modify f : Routine C R E S Unit).Keeps P obs :=
  hf

theorem ofExcept (r : Except E α) : (Routine.ofExcept r : Routine C R E S α).Keeps P obs :=
  fun _ _ => (wp_ofExcept r).mpr rfl

theorem bind (ht : t.Keeps P obs) (hf : ∀ a, (f a).Keeps P obs) : (t >>= f).Keeps P obs := by
  intro g s
  refine wp_bind.mpr (ht.wp fun g' s' r hobs => ?_)
  cases r with
  | error e => exact hobs
  | ok a => exact (hf a).wp fun _ _ _ hobs' => hobs'.trans hobs

theorem tryExcept {handler : E → Routine C R E S α} (ht : t.Keeps P obs)
    (hhandler : ∀ e, (handler e).Keeps P obs) : (t.tryExcept handler).Keeps P obs := by
  intro g s
  refine wp_tryExcept.mpr (ht.wp fun g' s' r hobs => ?_)
  cases r with
  | ok a => exact hobs
  | error e => exact (hhandler e).wp fun _ _ _ hobs' => hobs'.trans hobs

theorem tryFinally {last : Routine C R E S Unit} (ht : t.Keeps P obs) (hlast : last.Keeps P obs) :
    (t.tryFinally last).Keeps P obs := by
  intro g s
  refine wp_tryFinally.mpr (ht.wp fun g' s' r hobs => hlast.wp fun g'' s'' r' hobs' => ?_)
  cases r' with
  | ok _ => exact hobs'.trans hobs
  | error e => exact hobs'.trans hobs

theorem ite {c : Prop} [Decidable c] (ht : t.Keeps P obs) (ht' : t'.Keeps P obs) :
    (if c then t else t').Keeps P obs := by
  split
  · exact ht
  · exact ht'

theorem when {t : Routine C R E S Unit} (ht : t.Keeps P obs) (c : Prop) [Decidable c] :
    (Routine.when c t).Keeps P obs :=
  ht.ite (pure ())

end Keeps

end Routine

end UbsVirt.Await
