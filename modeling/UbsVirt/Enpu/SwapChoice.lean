import Mathlib.Data.Int.ConditionallyCompleteOrder
import Mathlib.Data.List.MinMax
import Mathlib.Data.List.Nodup
import Mathlib.Data.List.Perm.Basic
import Mathlib.Data.Prod.Lex
import Mathlib.Order.ConditionallyCompleteLattice.Basic
import UbsVirt.Enpu.SwapResolver

/-!
# Which vNPU is swapped out

The resolver collects a candidate for every allocated vNPU, drops the one that ran last by
moving the last candidate in its place, filters the rest in the same array and takes the
best of what is left (`swap_resolver.c:113-268`). Both searches are the `argmax` of a list:
of the time of the last kernel, and of the priority value with ties to the vNPU that has not
run for longest. So the array work amounts to an optimum over a set of vNPUs, which is
stated here without lists.
-/

namespace UbsVirt.Enpu

open List SwapCandidate

/-! ### What is chosen -/

namespace ShmState

variable (st : ShmState) (lastKernelTimeNs : Nat → Nat) (toSwapOut : SwapOutFlag) (v : Nat)

/-- The allocated vNPU that ran last, the one with the lowest id among equals. -/
structure Newest : Prop where
  allocated : st.bitmapTest v = true
  latest : ∀ u, st.bitmapTest u = true → lastKernelTimeNs u ≤ lastKernelTimeNs v
  lowest : ∀ u, st.bitmapTest u = true → lastKernelTimeNs u = lastKernelTimeNs v → v ≤ u

/-- The vNPU may be swapped out: it is allocated, it holds memory that is not swapped out, it is
oversubscribed, it is not the one that ran last, and for a request from borrowed memory it
holds more than it requested, which is in MB. -/
structure Eligible : Prop where
  allocated : st.bitmapTest v = true
  used : 0 < (st.entries v).hbmUsed
  resident : st.vnpuAllSwapped v = false
  oversubscribed : (st.entries v).hbmRequest ≠ (st.entries v).hbmLimit
  borrows : toSwapOut = .fromBorrowed →
    (st.entries v).hbmRequest.toNat * 1024 * 1024 < (st.entries v).hbmUsed
  idle : ¬ st.Newest lastKernelTimeNs v

/-- The vNPU may be swapped out, and no other that may has a larger priority value, or the same
one and not run for longer. -/
structure Optimal : Prop where
  eligible : st.Eligible lastKernelTimeNs toSwapOut v
  best : ∀ u, st.Eligible lastKernelTimeNs toSwapOut u →
    (st.entries u).swapPriority < (st.entries v).swapPriority ∨
      (st.entries u).swapPriority = (st.entries v).swapPriority ∧
        lastKernelTimeNs v ≤ lastKernelTimeNs u

def allocated : List Nat :=
  (List.range maxVnpuPerDie).filter st.bitmapTest

variable {st v} in
theorem mem_allocated : v ∈ st.allocated ↔ st.bitmapTest v = true := by
  unfold allocated bitmapTest
  simp

theorem pairwise_allocated : st.allocated.Pairwise (· < ·) :=
  pairwise_lt_range.filter _

variable {lastKernelTimeNs} in
theorem Newest.unique {u v : Nat} (hu : st.Newest lastKernelTimeNs u)
    (hv : st.Newest lastKernelTimeNs v) : u = v := by
  have htime : lastKernelTimeNs u = lastKernelTimeNs v :=
    Nat.le_antisymm (hv.latest u hu.allocated) (hu.latest v hv.allocated)
  exact Nat.le_antisymm (hu.lowest v hv.allocated htime.symm) (hv.lowest u hu.allocated htime)

end ShmState

/-! ### The searches -/

def SwapCandidate.rank (c : SwapCandidate) : Int ×ₗ Natᵒᵈ :=
  toLex (c.swapPriority, OrderDual.toDual c.lastKernelTimeNs)

variable {c : SwapCandidate}

theorem SwapCandidate.rank_lt_rank {b : SwapCandidate} : b.rank < c.rank ↔
    b.swapPriority < c.swapPriority ∨
      c.swapPriority = b.swapPriority ∧ c.lastKernelTimeNs < b.lastKernelTimeNs := by
  unfold rank
  rw [Prod.Lex.toLex_lt_toLex, OrderDual.toDual_lt_toDual, eq_comm]

theorem selectCandidate_eq_argmax (cs : List SwapCandidate) :
    selectCandidate cs = cs.argmax rank := by
  have hstep : preferred = argAux fun b c : SwapCandidate => c.rank < b.rank := by
    funext best c
    cases best with
    | none => rfl
    | some b =>
      simp only [preferred, argAux, rank_lt_rank]
      split
      · next h => rw [if_pos (.inl h)]
      · next h => simp only [h, false_or]
  unfold selectCandidate argmax
  rw [hstep]

/-- The search of `newestIdx`, with the time it has found. -/
def newestScan (cs : List SwapCandidate) : Nat × Nat :=
  cs.zipIdx.foldl (fun best c =>
    if best.1 < c.1.lastKernelTimeNs then (c.1.lastKernelTimeNs, c.2) else best) (0, 0)

theorem newestScan_concat (cs : List SwapCandidate) (c : SwapCandidate) :
    newestScan (cs ++ [c]) = if (newestScan cs).1 < c.lastKernelTimeNs
      then (c.lastKernelTimeNs, cs.length) else newestScan cs := by
  unfold newestScan
  rw [zipIdx_append, foldl_append, Nat.zero_add]
  rfl

/-- The scan returns the first candidate with the newest kernel. -/
theorem newestScan_spec (cs : List SwapCandidate) : ∀ m ∈ cs.argmax (·.lastKernelTimeNs),
      (newestScan cs).1 = m.lastKernelTimeNs ∧ cs[(newestScan cs).2]? = some m := by
  -- the scan and `argmax` look at the candidates in the same order: induction from the end
  induction cs using reverseRecOn with
  | nil => simp
  | append_singleton cs c ih =>
    intro m hm
    rw [argmax_concat] at hm
    rw [newestScan_concat]
    cases hcs : cs.argmax (·.lastKernelTimeNs) with
    | none =>
      rw [hcs] at hm
      cases hm
      rw [argmax_eq_none.mp hcs]
      split
      · exact ⟨rfl, rfl⟩
      · next hzero => exact ⟨(Nat.eq_zero_of_not_pos hzero).symm, rfl⟩
    | some b =>
      obtain ⟨htime, hidx⟩ := ih b hcs
      rw [hcs] at hm
      dsimp only at hm
      rw [htime]
      split
      · next hlt =>
        rw [if_pos hlt] at hm
        cases hm
        exact ⟨rfl, getElem?_concat_length⟩
      · next hge =>
        rw [if_neg hge] at hm
        cases hm
        obtain ⟨hlen, -⟩ := List.getElem?_eq_some_iff.mp hidx
        exact ⟨htime, by rw [getElem?_append_left hlen, hidx]⟩

variable {m : SwapCandidate}

/-- The index found is that of the first candidate that ran last. -/
theorem getElem?_newestIdx {cs : List SwapCandidate}
    (hm : m ∈ cs.argmax (·.lastKernelTimeNs)) : cs[newestIdx cs]? = some m :=
  (newestScan_spec cs m hm).2

/-! ### Removal by moving the last element -/

/-- Overwriting an element by the last one and shortening the list removes the element. -/
theorem dropLast_set_perm {α : Type*} (l : List α) (last : α) {n : Nat} (hn : n < l.length + 1) :
    (((l ++ [last]).set n last).dropLast).Perm ((l ++ [last]).eraseIdx n) := by
  by_cases hlt : n < l.length
  · rw [set_append_left _ _ hlt, dropLast_concat, eraseIdx_append_of_lt_length hlt]
    exact (set_perm_cons_eraseIdx hlt last).trans (perm_append_singleton _ _).symm
  · have heq : n = l.length := by omega
    subst heq
    rw [set_append_right _ _ (Nat.le_refl _), Nat.sub_self, set_cons_zero,
      dropLast_concat, eraseIdx_append_of_length_le (Nat.le_refl _), Nat.sub_self,
      eraseIdx_cons_zero, append_nil]

/-- What is left after the exclusion, when the candidates are distinct. -/
theorem mem_excludeNewest {cs : List SwapCandidate} (hnodup : cs.Nodup)
    (hm : m ∈ cs.argmax (·.lastKernelTimeNs)) : c ∈ excludeNewest cs ↔ c ∈ cs ∧ c ≠ m := by
  have hidx := getElem?_newestIdx hm
  obtain ⟨hlen, hget⟩ := List.getElem?_eq_some_iff.mp hidx
  have hperm : (excludeNewest cs).Perm (cs.erase m) := by
    rw [← hget, hnodup.erase_getElem _ hlen]
    cases cs using reverseRecOn with
    | nil => simp at hlen
    | append_singleton cs last =>
      unfold excludeNewest
      rw [getLast?_concat]
      exact dropLast_set_perm cs last (by simpa using hlen)
  rw [hperm.mem_iff, hnodup.mem_erase_iff, and_comm]

/-! ### The candidates of a die -/

namespace ShmState

variable {st : ShmState} {lastKernelTimeNs : Nat → Nat} {toSwapOut : SwapOutFlag} {u v : Nat}

theorem candidate_injective : Function.Injective (st.candidate lastKernelTimeNs toSwapOut) :=
  fun _ _ h => congrArg vnpuId h

variable (st lastKernelTimeNs toSwapOut) in
def collected : List SwapCandidate :=
  st.allocated.map (st.candidate lastKernelTimeNs toSwapOut)

theorem mem_collected : c ∈ st.collected lastKernelTimeNs toSwapOut ↔
    ∃ v, st.bitmapTest v = true ∧ st.candidate lastKernelTimeNs toSwapOut v = c := by
  simp only [collected, mem_map, mem_allocated]

variable (lastKernelTimeNs toSwapOut) in
theorem candidate_mem_collected (hv : st.bitmapTest v = true) :
    st.candidate lastKernelTimeNs toSwapOut v ∈ st.collected lastKernelTimeNs toSwapOut :=
  mem_collected.mpr ⟨v, hv, rfl⟩

theorem pairwise_collected :
    (st.collected lastKernelTimeNs toSwapOut).Pairwise (·.vnpuId < ·.vnpuId) :=
  pairwise_map.mpr st.pairwise_allocated

theorem nodup_collected : (st.collected lastKernelTimeNs toSwapOut).Nodup :=
  pairwise_collected.imp fun hlt heq => Nat.ne_of_lt hlt (congrArg vnpuId heq)

/-- Candidates stand in the order of their vNPUs. -/
theorem vnpuId_le_of_idxOf_le {b : SwapCandidate} (hb : b ∈ st.collected lastKernelTimeNs toSwapOut)
    (hc : c ∈ st.collected lastKernelTimeNs toSwapOut)
    (h : (st.collected lastKernelTimeNs toSwapOut).idxOf b ≤
      (st.collected lastKernelTimeNs toSwapOut).idxOf c) : b.vnpuId ≤ c.vnpuId := by
  rcases Nat.eq_or_lt_of_le h with heq | hlt
  · rw [(idxOf_inj hb).mp heq]
  · have hlt := pairwise_iff_getElem.mp pairwise_collected _ _
      (idxOf_lt_length_of_mem hb) (idxOf_lt_length_of_mem hc) hlt
    rw [getElem_idxOf, getElem_idxOf] at hlt
    exact Nat.le_of_lt hlt

/-- The first candidate that ran last is that of the newest vNPU. -/
theorem newest_of_mem_argmax
    (hm : m ∈ (st.collected lastKernelTimeNs toSwapOut).argmax (·.lastKernelTimeNs)) :
    ∃ v, st.Newest lastKernelTimeNs v ∧ st.candidate lastKernelTimeNs toSwapOut v = m := by
  obtain ⟨hmem, hmax, hfirst⟩ := mem_argmax_iff.mp hm
  obtain ⟨v, hv, rfl⟩ := mem_collected.mp hmem
  refine ⟨v, ⟨hv, fun u hu => hmax _ (candidate_mem_collected _ _ hu), fun u hu htime => ?_⟩, rfl⟩
  have hu' := candidate_mem_collected lastKernelTimeNs toSwapOut hu
  exact vnpuId_le_of_idxOf_le hmem hu' (hfirst _ hu' (Nat.le_of_eq htime.symm))

theorem mem_excludeNewest_collected : c ∈ excludeNewest (st.collected lastKernelTimeNs toSwapOut) ↔
      ∃ v, st.bitmapTest v = true ∧ ¬ st.Newest lastKernelTimeNs v ∧
        st.candidate lastKernelTimeNs toSwapOut v = c := by
  cases hnone : (st.collected lastKernelTimeNs toSwapOut).argmax (·.lastKernelTimeNs) with
  | none =>
    have hnil := argmax_eq_none.mp hnone
    rw [hnil]
    refine iff_of_false not_mem_nil ?_
    rintro ⟨v, hv, -, -⟩
    have hmem := candidate_mem_collected lastKernelTimeNs toSwapOut hv
    rw [hnil] at hmem
    cases hmem
  | some m =>
    obtain ⟨n, hn, rfl⟩ := newest_of_mem_argmax hnone
    rw [mem_excludeNewest nodup_collected hnone, mem_collected]
    constructor
    · rintro ⟨⟨v, hv, rfl⟩, hne⟩
      refine ⟨v, hv, fun hnew => hne ?_, rfl⟩
      rw [hnew.unique _ hn]
    · rintro ⟨v, hv, hnew, rfl⟩
      refine ⟨⟨v, hv, rfl⟩, fun heq => hnew ?_⟩
      rwa [candidate_injective heq]

/-- Requests that are taken for what they are in bytes: the product of `swap_resolver.c:148` does
not wrap. -/
def RequestsFit (st : ShmState) : Prop :=
  ∀ v, st.bitmapTest v = true → (st.entries v).hbmRequest.toNat < 2 ^ 44

theorem toNat_hbmRequest_bytes {request : UInt64} (h : request.toNat < 2 ^ 44) :
    (request * 1024 * 1024).toNat = request.toNat * 1024 * 1024 := by
  rw [UInt64.toNat_mul, UInt64.toNat_mul]
  simp only [UInt64.reduceToNat]
  omega

/-- What the filter lets through of the candidates that are left. -/
theorem candidate_passes_iff
    (hfit : toSwapOut = .fromBorrowed → (st.entries v).hbmRequest.toNat < 2 ^ 44)
    (hv : st.bitmapTest v = true) (hidle : ¬ st.Newest lastKernelTimeNs v) :
    ((st.candidate lastKernelTimeNs toSwapOut v).hbmUsed != 0 &&
      !(st.candidate lastKernelTimeNs toSwapOut v).swapped &&
      (st.candidate lastKernelTimeNs toSwapOut v).swappable) = true ↔
      st.Eligible lastKernelTimeNs toSwapOut v := by
  simp only [candidate, Bool.and_eq_true, bne_iff_ne, Bool.not_eq_true', Bool.or_eq_false_iff,
    beq_eq_false_iff_ne, Bool.and_eq_false_imp, beq_iff_eq, decide_eq_false_iff_not, not_le]
  constructor
  · rintro ⟨⟨hused, hresident⟩, hover, hborrow⟩
    refine ⟨hv, Nat.pos_of_ne_zero hused, hresident, hover, fun hflag => ?_, hidle⟩
    rw [← toNat_hbmRequest_bytes (hfit hflag)]
    exact hborrow hflag
  · intro he
    refine ⟨⟨Nat.ne_of_gt he.used, he.resident⟩, he.oversubscribed, fun hflag => ?_⟩
    rw [toNat_hbmRequest_bytes (hfit hflag)]
    exact he.borrows hflag

theorem mem_getIdleModels (hcount : st.allocated.length ≤ maxVnpuSched)
    (hfit : toSwapOut = .fromBorrowed → st.RequestsFit) :
    c ∈ st.getIdleModels lastKernelTimeNs toSwapOut ↔
      ∃ v, st.Eligible lastKernelTimeNs toSwapOut v ∧
        st.candidate lastKernelTimeNs toSwapOut v = c := by
  have hall : ((range maxVnpuPerDie).filter st.bitmapTest).take maxVnpuSched =
      st.allocated := take_of_length_le hcount
  unfold getIdleModels
  rw [hall, mem_filter]
  change c ∈ excludeNewest (st.collected lastKernelTimeNs toSwapOut) ∧ _ ↔ _
  rw [mem_excludeNewest_collected]
  constructor
  · rintro ⟨⟨v, hv, hidle, rfl⟩, hpass⟩
    exact ⟨v, (candidate_passes_iff (fun h => hfit h v hv) hv hidle).mp hpass, rfl⟩
  · rintro ⟨v, he, rfl⟩
    exact ⟨⟨v, he.allocated, he.idle, rfl⟩,
      (candidate_passes_iff (fun h => hfit h v he.allocated) he.allocated he.idle).mpr he⟩

/-- The array work of the resolver finds an optimum among the vNPUs that may be swapped out, and
nothing exactly when there is none. -/
theorem selectCandidate_optimal (st : ShmState) (lastKernelTimeNs : Nat → Nat)
    (toSwapOut : SwapOutFlag) (hcount : st.allocated.length ≤ maxVnpuSched)
    (hfit : toSwapOut = .fromBorrowed → st.RequestsFit) :
    (∀ c, selectCandidate (st.getIdleModels lastKernelTimeNs toSwapOut) = some c →
      st.Optimal lastKernelTimeNs toSwapOut c.vnpuId) ∧
    (selectCandidate (st.getIdleModels lastKernelTimeNs toSwapOut) = none ↔
      ∀ v, ¬ st.Eligible lastKernelTimeNs toSwapOut v) := by
  rw [selectCandidate_eq_argmax]
  refine ⟨fun c hc => ?_, ?_⟩
  · obtain ⟨v, hv, rfl⟩ := (mem_getIdleModels hcount hfit).mp (argmax_mem hc)
    refine ⟨hv, fun u hu => ?_⟩
    have hbest := not_lt_of_mem_argmax ((mem_getIdleModels hcount hfit).mpr ⟨u, hu, rfl⟩) hc
    rw [rank_lt_rank, not_or, not_lt, not_and, not_lt] at hbest
    rcases Int.lt_or_eq_of_le hbest.1 with hlt | heq
    · exact .inl hlt
    · exact .inr ⟨heq, hbest.2 heq⟩
  · rw [argmax_eq_none, eq_nil_iff_forall_not_mem]
    constructor
    · exact fun hnil v hv => hnil _ ((mem_getIdleModels hcount hfit).mpr ⟨v, hv, rfl⟩)
    · rintro hnone c hc
      obtain ⟨v, hv, -⟩ := (mem_getIdleModels hcount hfit).mp hc
      exact hnone v hv

/-- A die with two vNPUs, the first of which ran last. The second requests `request` MB and holds
`used` bytes. -/
def twoVnpus (request : UInt64) (used : Nat) : ShmState :=
  let busy : VnpuShmEntry := { VnpuShmEntry.zero with hbmLimit := 1, hbmUsed := 1 }
  let idle : VnpuShmEntry := { VnpuShmEntry.zero with
    hbmRequest := request, hbmLimit := 1, hbmUsed := used }
  { create "die" with
    entries := fun v => if v = 0 then busy else idle
    vnpuBitmap := fun v => v < 2 }

theorem selectCandidate_optimal_twoVnpus :
    (twoVnpus 2 3145728).Optimal (fun v => if v = 0 then 7 else 5) .fromBorrowed 1 := by
  have hfit : (twoVnpus 2 3145728).RequestsFit := by
    intro v _
    by_cases hv : v = 0
    · subst hv; decide
    · simp [twoVnpus, hv]
  have hsome : (selectCandidate ((twoVnpus 2 3145728).getIdleModels
      (fun v => if v = 0 then 7 else 5) .fromBorrowed)).map (·.vnpuId) = some 1 := by
    decide +kernel
  obtain ⟨c, hc, hid⟩ := Option.map_eq_some_iff.mp hsome
  rw [← hid]
  exact (selectCandidate_optimal (twoVnpus 2 3145728) _ _ (by decide +kernel) fun _ => hfit).1 c hc

/-- A request of `2 ^ 44` MB wraps to nothing, so a vNPU that holds a single byte is swapped out
to take back what it has borrowed. -/
theorem request_wraps :
    ¬ ∀ (st : ShmState) (lastKernelTimeNs : Nat → Nat) (toSwapOut : SwapOutFlag),
      st.allocated.length ≤ maxVnpuSched →
      ∀ c, selectCandidate (st.getIdleModels lastKernelTimeNs toSwapOut) = some c →
        st.Optimal lastKernelTimeNs toSwapOut c.vnpuId := by
  intro h
  have hsome : (selectCandidate ((twoVnpus 17592186044416 1).getIdleModels
      (fun v => if v = 0 then 7 else 5) .fromBorrowed)).map (·.vnpuId) = some 1 := by
    decide +kernel
  obtain ⟨c, hc, hid⟩ := Option.map_eq_some_iff.mp hsome
  have hborrows := (h (twoVnpus 17592186044416 1) _ _ (by decide +kernel) c hc).eligible.borrows rfl
  rw [hid] at hborrows
  exact absurd hborrows (by decide +kernel)

end ShmState

end UbsVirt.Enpu
