import Mathlib.Data.List.Basic

/-!
# A lock with a queue

The lock of an event loop. Who finds it free and no one waiting takes it at once; everyone else
joins the queue. Whoever releases it wakes the first one in the queue, who takes the lock when it
runs again: in between the lock is free, but not to be had by others. A waiter that gives up
leaves the queue, and wakes the next one if the lock is free.

The lock itself only knows whether it is taken. Who has taken it is recorded here in addition.
-/

namespace UbsVirt

open List

/-- `owner` has taken the lock and no one has released it since; every waiter comes with whether
it has been woken. -/
structure AsyncLock (ι : Type) where
  owner : Option ι
  waiters : List (ι × Bool)

namespace AsyncLock

variable {ι : Type}

def free : AsyncLock ι := ⟨none, []⟩

def locked (l : AsyncLock ι) : Bool := l.owner.isSome

def wakeFirst : List (ι × Bool) → List (ι × Bool)
  | [] => []
  | w :: ws => (w.1, true) :: ws

def release (l : AsyncLock ι) : AsyncLock ι :=
  if l.locked then ⟨none, wakeFirst l.waiters⟩ else l

variable [DecidableEq ι]

def acquire (l : AsyncLock ι) (i : ι) : AsyncLock ι × Bool :=
  match l.waiters.find? (·.1 = i) with
  | some (_, true) => (⟨some i, l.waiters.filter (·.1 ≠ i)⟩, true)
  | some (_, false) => (l, false)
  | none =>
    if l.locked ∨ l.waiters ≠ [] then (⟨l.owner, l.waiters ++ [(i, false)]⟩, false)
    else (⟨some i, l.waiters⟩, true)

def giveUp (l : AsyncLock ι) (i : ι) : AsyncLock ι :=
  let rest := l.waiters.filter (·.1 ≠ i)
  ⟨l.owner, if l.locked then rest else wakeFirst rest⟩

/-- Only the first one in the queue can have been woken, and only while the lock is free. -/
structure WF (l : AsyncLock ι) : Prop where
  woken : ∀ w ∈ l.waiters, w.2 = true → l.owner = none
  first : ∀ w ∈ l.waiters.tail, w.2 = false

omit [DecidableEq ι] in
theorem WF.free : (free : AsyncLock ι).WF :=
  ⟨fun _ h => absurd h not_mem_nil, fun _ h => absurd h not_mem_nil⟩

omit [DecidableEq ι] in
theorem WF.wakeFirst {ws : List (ι × Bool)} (h : ∀ w ∈ ws.tail, w.2 = false) :
    (⟨none, wakeFirst ws⟩ : AsyncLock ι).WF := by
  refine ⟨fun _ _ _ => rfl, ?_⟩
  cases ws with
  | nil => exact fun _ hw => absurd hw not_mem_nil
  | cons w ws => exact h

omit [DecidableEq ι] in
theorem release_owner (l : AsyncLock ι) : l.release.owner = none := by
  unfold release locked
  split
  · rfl
  · next h => simpa using h

omit [DecidableEq ι] in
theorem WF.release {l : AsyncLock ι} (h : l.WF) : l.release.WF := by
  unfold AsyncLock.release
  split
  · exact .wakeFirst h.first
  · exact h

/-- Those left when one of the queue has gone are still in order. -/
theorem tail_filter {ws : List (ι × Bool)} (h : ∀ w ∈ ws.tail, w.2 = false) (i : ι) :
    ∀ w ∈ (ws.filter (·.1 ≠ i)).tail, w.2 = false := by
  cases ws with
  | nil => exact fun _ hw => absurd hw not_mem_nil
  | cons w ws =>
    intro v hv
    rw [filter_cons] at hv
    split at hv
    · exact h v (mem_of_mem_filter hv)
    · exact h v (mem_of_mem_filter (mem_of_mem_tail hv))

/-- Whoever is given the lock finds it free. -/
theorem WF.acquire {l l' : AsyncLock ι} (h : l.WF) {i : ι} (hl : l.acquire i = (l', true)) :
    l.owner = none ∧ l'.owner = some i ∧ l'.WF := by
  unfold AsyncLock.acquire at hl
  split at hl
  · next j hfound =>
    cases hl
    have hfree : l.owner = none := h.woken _ (mem_of_find?_eq_some hfound) rfl
    refine ⟨hfree, rfl, ?_, tail_filter h.first i⟩
    -- the woken one was the first, the others have not been woken
    intro w hw hwoken
    obtain ⟨hmem, hne⟩ := mem_filter.mp hw
    cases hws : l.waiters with
    | nil =>
      rw [hws] at hmem
      cases hmem
    | cons v ws =>
      have hunwoken : ∀ u ∈ ws, u.2 = false := by
        intro u hu
        apply h.first
        rwa [hws]
      rw [hws] at hmem hfound
      have hv : v = (j, true) := by
        rcases mem_cons.mp (mem_of_find?_eq_some hfound) with heq | hrest
        · exact heq.symm
        · exact absurd (hunwoken _ hrest) (by simp)
      rcases mem_cons.mp hmem with rfl | hrest
      · have hj := find?_some hfound
        rw [hv] at hne
        exact absurd (of_decide_eq_true hj) (of_decide_eq_true hne)
      · rw [hunwoken w hrest] at hwoken
        cases hwoken
  · cases hl
  · split at hl
    · cases hl
    · next hfree =>
      cases hl
      obtain ⟨hunlocked, hnil⟩ := not_or.mp hfree
      refine ⟨by simpa [locked] using hunlocked, rfl, ?_, h.first⟩
      intro w hw
      rw [not_not.mp hnil] at hw
      cases hw

theorem WF.wait {l l' : AsyncLock ι} (h : l.WF) {i : ι} (hl : l.acquire i = (l', false)) :
    l'.owner = l.owner ∧ l'.WF := by
  unfold AsyncLock.acquire at hl
  split at hl
  · cases hl
  · cases hl
    exact ⟨rfl, h⟩
  · split at hl
    · cases hl
      refine ⟨rfl, ?_, ?_⟩
      · intro w hw hwoken
        rcases mem_append.mp hw with hold | hnew
        · exact h.woken w hold hwoken
        · rw [mem_singleton.mp hnew] at hwoken
          cases hwoken
      · intro w hw
        cases hws : l.waiters with
        | nil =>
          rw [hws] at hw
          cases hw
        | cons v ws =>
          rw [hws] at hw
          rcases mem_append.mp hw with hold | hnew
          · apply h.first
            rwa [hws]
          · rw [mem_singleton.mp hnew]
    · cases hl

theorem WF.giveUp {l : AsyncLock ι} (h : l.WF) (i : ι) : (l.giveUp i).WF := by
  unfold AsyncLock.giveUp
  dsimp only
  split
  · refine ⟨?_, tail_filter h.first i⟩
    exact fun w hw => h.woken w (mem_of_mem_filter hw)
  · next hfree =>
    have hnone : l.owner = none := by simpa [locked] using hfree
    rw [hnone]
    exact .wakeFirst (tail_filter h.first i)

end AsyncLock

end UbsVirt
