import UbsVirt.Enpu.ShmState
import UbsVirt.Lib.Reservation
import UbsVirt.Lib.Run

/-!
# The memory limiter

Every allocation of a runtime process is checked before it is made. With equal request and
limit the process is held to its limit; with a lower request it may borrow what the other
vNPUs of the die have not reserved. Source: `vcann-rt/src/mem_limiter.c:22-93`,
`vcann-rt/src/shm_manager.c:174-206`, `vcann-rt/src/npu_manager.c:44-58`,
`vcann-rt/src/ascend/memory.c:187-230`.
-/

namespace UbsVirt.Enpu

open Reservation Run List ShmState Function

def mbToB : Nat := 1024 * 1024

/-- `mem_request_quota` and `mem_limit_quota` of a container, in bytes. -/
structure Quotas where
  request : Nat
  limit : Nat

variable {q : Quotas} {used : Nat}

namespace Quotas

/-- `get_swap_enabled`, `npu_manager.c:55-58`. -/
def swapEnabled (q : Quotas) : Bool :=
  q.request != q.limit

/-- `memory_check`, `mem_limiter.c:22-35`; `used` is what DCMI reports. -/
def memoryCheck (q : Quotas) (used : Option Nat) (requested : Nat) : Bool :=
  match used with
  | none => false
  | some used => decide (requested + used < 2 ^ 64) && decide (requested + used ≤ q.limit)

/-- `memory_check_elastic`, `mem_limiter.c:37-68`. `swapOutOk` is the result of
`check_and_swap_out`, `dynamicFree` that of `get_mem_dynamic_free`. -/
def memoryCheckElastic (q : Quotas) (used : Option Nat) (dynamicFree : Nat) (swapOutOk : Bool)
    (requested : Nat) : Bool :=
  match used with
  | none => false
  | some used =>
    let newTotal := requested + used
    if 2 ^ 64 ≤ newTotal then false
    else if q.limit < newTotal then false
    else if q.request = 0 ∨ newTotal ≤ q.request then swapOutOk
    else
      let borrowNeeded := if q.request < used then requested else newTotal - q.request
      decide (borrowNeeded ≤ dynamicFree)

/-- `guard_memory`, `mem_limiter.c:70-93`, as all its callers call it; `locked` tells whether the
file lock was obtained. -/
def guardMemory (q : Quotas) (locked : Bool) (used : Option Nat) (dynamicFree : Nat)
    (swapOutOk : Bool) (requested : Nat) : Bool :=
  locked && if q.swapEnabled then q.memoryCheckElastic used dynamicFree swapOutOk requested
    else q.memoryCheck used requested

/-- What is admitted: nothing beyond the limit, and beyond the request no more than is free. -/
theorem memoryCheckElastic_iff {dynamicFree requested : Nat} {swapOutOk : Bool}
    (hq : 0 < q.request) :
    q.memoryCheckElastic (some used) dynamicFree swapOutOk requested = true ↔
      requested + used < 2 ^ 64 ∧ requested + used ≤ q.limit ∧
        if requested + used ≤ q.request then swapOutOk = true
        else requested + used - max used q.request ≤ dynamicFree := by
  simp only [memoryCheckElastic, hq.ne', false_or]
  split
  · next hover => exact iff_of_false nofun fun h => Nat.not_lt.mpr hover h.1
  split
  · next hover => exact iff_of_false nofun fun h => Nat.not_le.mpr hover h.2.1
  next hsize hlimit =>
  rw [← and_assoc, and_iff_right ⟨Nat.not_le.mp hsize, Nat.not_lt.mp hlimit⟩]
  split
  · rfl
  · rw [decide_eq_true_eq]
    split
    all_goals omega

theorem memoryCheckElastic_le_limit {dynamicFree requested : Nat}
    {swapOutOk : Bool} (h : q.memoryCheckElastic (some used) dynamicFree swapOutOk requested = true) :
    requested + used ≤ q.limit := by
  simp only [memoryCheckElastic] at h
  split at h
  · cases h
  split at h
  · cases h
  · next hle => exact Nat.not_lt.mp hle

end Quotas

/-! ### What is left to borrow -/

variable {st : ShmState}

namespace ShmState

def vnpus (st : ShmState) : List Nat :=
  (List.range maxVnpuPerDie).filter st.bitmapTest

def usedBytes (st : ShmState) (v : Nat) : Nat :=
  (st.entries v).hbmUsed

def requestBytes (st : ShmState) (v : Nat) : Nat :=
  (st.entries v).hbmRequest.toNat * mbToB

/-- The loop of `shm_get_dynamic_free`, lines 184-193: what is borrowed and what is requested,
in 64-bit arithmetic. -/
def dynamicSums (st : ShmState) : Nat × Nat :=
  st.vnpus.foldl (fun sums v =>
    let used := st.usedBytes v
    let request := st.requestBytes v % 2 ^ 64
    (if request < used then (sums.1 + used - request) % 2 ^ 64 else sums.1,
      (sums.2 + request) % 2 ^ 64)) (0, 0)

/-- `shm_get_dynamic_free`, lines 174-206. -/
def getDynamicFree (st : ShmState) : Nat :=
  let (totalUsed, totalRequest) := st.dynamicSums
  let total := st.hbmTotal.toNat
  if total ≤ totalRequest then 0
  else if totalUsed < total - totalRequest then total - totalRequest - totalUsed
  else 0

def committed (st : ShmState) : Nat :=
  Reservation.committed st.vnpus.toFinset st.usedBytes st.requestBytes

/-- Every vNPU can still use its whole request. -/
def Reserved (st : ShmState) : Prop :=
  st.committed ≤ st.hbmTotal.toNat

theorem mem_vnpus {v : Nat} : v ∈ st.vnpus ↔ st.bitmapTest v = true := by
  unfold vnpus
  rw [mem_filter, mem_range]
  constructor
  · exact fun h => h.2
  · intro h
    refine ⟨?_, h⟩
    simp only [bitmapTest, Bool.and_eq_true, decide_eq_true_eq] at h
    exact h.1

theorem sum_vnpus (st : ShmState) (f : Nat → Nat) :
    ∑ v ∈ st.vnpus.toFinset, f v = (st.vnpus.map f).sum :=
  sum_toFinset f (nodup_range.filter _)

/-- The loop adds up modulo 2^64. -/
theorem dynamicSums_eq (st : ShmState) : st.dynamicSums =
    ((st.vnpus.map fun v => st.usedBytes v - st.requestBytes v % 2 ^ 64).sum % 2 ^ 64,
      (st.vnpus.map fun v => st.requestBytes v % 2 ^ 64).sum % 2 ^ 64) := by
  have hfold : ∀ (vs : List Nat) (borrowed requested : Nat),
      vs.foldl (fun (sums : Nat × Nat) v =>
        (if st.requestBytes v % 2 ^ 64 < st.usedBytes v then
            (sums.1 + st.usedBytes v - st.requestBytes v % 2 ^ 64) % 2 ^ 64
          else sums.1, (sums.2 + st.requestBytes v % 2 ^ 64) % 2 ^ 64))
        (borrowed % 2 ^ 64, requested % 2 ^ 64) =
      ((borrowed + (vs.map fun v => st.usedBytes v - st.requestBytes v % 2 ^ 64).sum) % 2 ^ 64,
        (requested + (vs.map fun v => st.requestBytes v % 2 ^ 64).sum) % 2 ^ 64) := by
    intro vs
    induction vs with
    | nil => simp
    | cons v vs ih =>
      intro borrowed requested
      have hborrowed : (if st.requestBytes v % 2 ^ 64 < st.usedBytes v then
            (borrowed % 2 ^ 64 + st.usedBytes v - st.requestBytes v % 2 ^ 64) % 2 ^ 64
          else borrowed % 2 ^ 64) =
          (borrowed + (st.usedBytes v - st.requestBytes v % 2 ^ 64)) % 2 ^ 64 := by
        split
        all_goals omega
      have hrequested : (requested % 2 ^ 64 + st.requestBytes v % 2 ^ 64) % 2 ^ 64 =
          (requested + st.requestBytes v % 2 ^ 64) % 2 ^ 64 := by
        omega
      rw [foldl_cons]
      dsimp only
      rw [hborrowed, hrequested, ih, map_cons, map_cons, sum_cons, sum_cons,
        Nat.add_assoc, Nat.add_assoc]
  have h := hfold st.vnpus 0 0
  rwa [Nat.zero_add, Nat.zero_add] at h

/-- While the requests are covered nothing wraps, and at most what is left can be borrowed. -/
theorem getDynamicFree_le (h : st.Reserved) : st.getDynamicFree ≤
    st.hbmTotal.toNat - (∑ v ∈ st.vnpus.toFinset, st.requestBytes v +
      borrowed st.vnpus.toFinset st.usedBytes st.requestBytes) := by
  have htotal : st.hbmTotal.toNat < 2 ^ 64 := st.hbmTotal.toNat_lt
  have hcommitted : _ ≤ st.hbmTotal.toNat := h
  rw [committed, committed_eq] at hcommitted
  have hrequest : ∀ v ∈ st.vnpus, st.requestBytes v % 2 ^ 64 = st.requestBytes v := by
    intro v hv
    apply Nat.mod_eq_of_lt
    have hle : st.requestBytes v ≤ ∑ v ∈ st.vnpus.toFinset, st.requestBytes v :=
      Finset.single_le_sum (fun _ _ => Nat.zero_le _) (mem_toFinset.mpr hv)
    omega
  have hsums : st.dynamicSums = (borrowed st.vnpus.toFinset st.usedBytes st.requestBytes,
      ∑ v ∈ st.vnpus.toFinset, st.requestBytes v) := by
    have hborrow : (st.vnpus.map fun v => st.usedBytes v - st.requestBytes v % 2 ^ 64).sum =
        borrowed st.vnpus.toFinset st.usedBytes st.requestBytes := by
      rw [borrowed, sum_vnpus]
      congr 1
      apply map_congr_left
      intro v hv
      rw [hrequest v hv]
    have hreq : (st.vnpus.map fun v => st.requestBytes v % 2 ^ 64).sum =
        ∑ v ∈ st.vnpus.toFinset, st.requestBytes v := by
      rw [sum_vnpus]
      congr 1
      exact map_congr_left hrequest
    rw [dynamicSums_eq, hborrow, hreq, Nat.mod_eq_of_lt (by omega), Nat.mod_eq_of_lt (by omega)]
  unfold getDynamicFree
  rw [hsums]
  dsimp only
  split
  · omega
  split
  all_goals omega

end ShmState

/-! ### The free memory that is reported -/

namespace Quotas

/-- `rtMemGetInfoEx`, `ascend/memory.c:187-230`, of an initialized process: the free and the total
size it reports. `shm` is what `get_shm_state` gives, `used` what DCMI reports. -/
def rtMemGetInfoEx (q : Quotas) (shm : Option ShmState) (used : Option Nat) : Option (Nat × Nat) :=
  match used with
  | none => none
  | some used =>
    if q.limit < used then none
    else
      let remain := q.limit - used
      match shm with
      | none => some (remain, q.limit)
      | some st =>
        if q.limit = q.request then some (remain, q.limit)
        else
          let dynamicFree := st.getDynamicFree
          if used < q.request then
            let freeMem1 := (q.request - used + dynamicFree) % 2 ^ 64
            let freeMem2 := if freeMem1 < remain then freeMem1 else remain
            some (if q.request - used < freeMem2 then freeMem2 else q.request - used, q.limit)
          else some (if dynamicFree < remain then dynamicFree else remain, q.limit)

/-- With a lower request than limit, what is reported as free is bounded by the limit and by what
is left of the request together with what can be borrowed. -/
theorem free_of_rtMemGetInfoEx {free total : Nat}
    (hlimit : q.request < q.limit) (hsum : q.request - used + st.getDynamicFree < 2 ^ 64)
    (h : q.rtMemGetInfoEx (some st) (some used) = some (free, total)) :
    used ≤ q.limit ∧ free = min (q.limit - used) (q.request - used + st.getDynamicFree) := by
  simp only [rtMemGetInfoEx, Nat.mod_eq_of_lt hsum, hlimit.ne', if_false] at h
  split at h
  · cases h
  next hused =>
  refine ⟨Nat.not_lt.mp hused, ?_⟩
  split at h
  all_goals
    simp only [Option.some.injEq, Prod.mk.injEq] at h
    rw [← h.1]
    repeat' split
    all_goals omega

/-- The size reported as free is the largest one the limiter admits, and it admits every smaller
one: below the request, across it and above it. -/
theorem memoryCheckElastic_iff_le_free {q : Quotas} {st : ShmState} {used free total : Nat}
    (hrequest : 0 < q.request) (hlimit : q.request < q.limit) (hsize : q.limit < 2 ^ 64)
    (hsum : q.request - used + st.getDynamicFree < 2 ^ 64)
    (hreport : q.rtMemGetInfoEx (some st) (some used) = some (free, total)) (requested : Nat) :
    q.memoryCheckElastic (some used) st.getDynamicFree true requested = true ↔
      requested ≤ free := by
  obtain ⟨hused, hfree⟩ := free_of_rtMemGetInfoEx hlimit hsum hreport
  rw [hfree, memoryCheckElastic_iff hrequest]
  split
  · simp only [and_true]
    omega
  · omega

/-- A vNPU with 1 MB of its 4 MB in use, which is all it requests, on a die of 8 MB where another
one requests 1 MB. -/
theorem free_of_half_used : let q : Quotas := ⟨mbToB, 4 * mbToB⟩
    let st : ShmState := { create "die0" with
      hbmTotal := 8388608
      entries := fun _ => { VnpuShmEntry.zero with hbmRequest := 1, hbmLimit := 4 }
      vnpuBitmap := fun v => decide (v < 2) }
    q.rtMemGetInfoEx (some st) (some mbToB) = some (3145728, 4194304) ∧
      (q.memoryCheckElastic (some mbToB) st.getDynamicFree true 3145728 = true ↔
        3145728 ≤ 3145728) := by
  intro q st
  have hreport : q.rtMemGetInfoEx (some st) (some mbToB) = some (3145728, 4194304) := by
    decide +kernel
  refine ⟨hreport, memoryCheckElastic_iff_le_free ?_ ?_ ?_ ?_ hreport 3145728⟩
  all_goals decide +kernel

end Quotas

/-! ### Checked allocations of a die -/

namespace ShmState

def setUsed (st : ShmState) (v : Nat) (n : Nat) : ShmState :=
  st.modifyEntry v fun e => { e with hbmUsed := n }

variable (st : ShmState) (v n : Nat)

theorem usedBytes_setUsed : (st.setUsed v n).usedBytes = update st.usedBytes v n := by
  ext u
  unfold usedBytes setUsed modifyEntry
  by_cases hu : u = v
  · subst hu
    simp
  · simp [hu]

theorem requestBytes_setUsed : (st.setUsed v n).requestBytes = st.requestBytes := by
  ext u
  unfold requestBytes setUsed modifyEntry
  by_cases hu : u = v
  · subst hu
    simp
  · simp [hu]

theorem committed_setUsed : (st.setUsed v n).committed =
    Reservation.committed st.vnpus.toFinset (update st.usedBytes v n) st.requestBytes := by
  rw [committed, usedBytes_setUsed, requestBytes_setUsed]
  rfl

def quotas : Quotas :=
  ⟨st.requestBytes v, (st.entries v).hbmLimit.toNat * mbToB⟩

theorem quotas_setUsed (u : Nat) : (st.setUsed v n).quotas u = st.quotas u := by
  unfold quotas
  rw [requestBytes_setUsed]
  unfold setUsed modifyEntry
  by_cases hu : u = v
  · subst hu
    simp
  · simp [hu]

end ShmState

/-- A block of device memory that a vNPU has allocated. -/
structure VnpuBlock where
  vnpu : Nat
  size : Nat
  deriving DecidableEq, Repr

/-- A die with the blocks its vNPUs have allocated. -/
structure ElasticDie where
  shm : ShmState
  blocks : List VnpuBlock

/-- An allocation that is checked and made in one step, and the free of an allocated block. -/
inductive ElasticStep where
  | malloc (v size : Nat) (swapOutOk : Bool)
  | free (b : VnpuBlock)
  deriving DecidableEq

namespace ElasticDie

def step (s : ElasticDie) : ElasticStep → ElasticDie
  | .malloc v size swapOutOk =>
    if s.shm.bitmapTest v && (s.shm.quotas v).memoryCheckElastic (some (s.shm.usedBytes v))
        s.shm.getDynamicFree swapOutOk size then
      { shm := s.shm.setUsed v (s.shm.usedBytes v + size), blocks := ⟨v, size⟩ :: s.blocks }
    else s
  | .free b =>
    if b ∈ s.blocks then
      { shm := s.shm.setUsed b.vnpu (subU64 (s.shm.usedBytes b.vnpu) b.size)
        blocks := s.blocks.erase b }
    else s

def heldBy (blocks : List VnpuBlock) (v : Nat) : Nat :=
  (blocks.map fun b => if b.vnpu = v then b.size else 0).sum

/-- The request of every vNPU is positive and at most its limit, allocated blocks are counted
as used, and every vNPU can still use its request. -/
structure ElasticInv (s : ElasticDie) : Prop where
  quotas : ∀ v, s.shm.bitmapTest v = true →
    0 < (s.shm.quotas v).request ∧ (s.shm.quotas v).request ≤ (s.shm.quotas v).limit
  counted : ∀ v, heldBy s.blocks v ≤ s.shm.usedBytes v
  reserved : s.shm.Reserved

theorem heldBy_cons (b : VnpuBlock) (blocks : List VnpuBlock) (v : Nat) :
    heldBy (b :: blocks) v = (if b.vnpu = v then b.size else 0) + heldBy blocks v :=
  sum_cons

theorem heldBy_erase {b : VnpuBlock} {blocks : List VnpuBlock} (h : b ∈ blocks) (v : Nat) :
    (if b.vnpu = v then b.size else 0) + heldBy (blocks.erase b) v = heldBy blocks v :=
  sum_map_erase (fun b : VnpuBlock => if b.vnpu = v then b.size else 0) h

/-- The elastic limiter's allocation keeps the invariant. -/
theorem elasticInv_malloc {s : ElasticDie} (h : ElasticInv s) (v size : Nat) (swapOutOk : Bool) :
    ElasticInv (s.step (.malloc v size swapOutOk)) := by
  simp only [step]
  split
  swap
  · exact h
  next hadmit =>
  rw [Bool.and_eq_true] at hadmit
  obtain ⟨hbit, hcheck⟩ := hadmit
  have hmem : v ∈ s.shm.vnpus.toFinset := mem_toFinset.mpr (mem_vnpus.mpr hbit)
  constructor
  · intro u hu
    rw [quotas_setUsed]
    exact h.quotas u hu
  · intro u
    have hcounted := h.counted u
    rw [heldBy_cons, usedBytes_setUsed]
    dsimp only
    by_cases hvu : v = u
    · subst hvu
      rw [if_pos rfl, update_self]
      omega
    · rw [if_neg hvu, update_of_ne (Ne.symm hvu)]
      omega
  · have hborrow : size + s.shm.usedBytes v - max (s.shm.usedBytes v) (s.shm.quotas v).request ≤
        s.shm.getDynamicFree := by
      have hadmitted := ((Quotas.memoryCheckElastic_iff (h.quotas v hbit).1).mp hcheck).2.2
      split at hadmitted
      all_goals omega
    have hleft := getDynamicFree_le h.reserved
    rw [Reserved, committed_setUsed]
    apply committed_update_le hmem h.reserved
    apply le_trans _ hleft
    rwa [Nat.add_comm]

theorem elasticInv_free {s : ElasticDie} (h : ElasticInv s) (b : VnpuBlock) :
    ElasticInv (s.step (.free b)) := by
  simp only [step]
  split
  swap
  · exact h
  next hmem =>
  have hsize : b.size ≤ s.shm.usedBytes b.vnpu := by
    have hheld := heldBy_erase hmem b.vnpu
    have hcounted := h.counted b.vnpu
    rw [if_pos rfl] at hheld
    omega
  rw [subU64_of_le hsize]
  constructor
  · intro u hu
    rw [quotas_setUsed]
    exact h.quotas u hu
  · intro u
    have hheld := heldBy_erase hmem u
    have hcounted := h.counted u
    rw [usedBytes_setUsed]
    dsimp only
    by_cases hvu : b.vnpu = u
    · subst hvu
      rw [if_pos rfl] at hheld
      rw [update_self]
      omega
    · rw [if_neg hvu] at hheld
      rw [update_of_ne (Ne.symm hvu)]
      omega
  · rw [Reserved, committed_setUsed]
    apply le_trans (committed_update_le_of_le (Nat.sub_le _ b.size))
    exact h.reserved

/-- On a die whose requests are covered, with checked allocations that are made at once, the
larger of use and request of all vNPUs together stays within the memory of the die in every
run; so an allocation of any vNPU within its request fits beside all that is used. -/
theorem reservation_kept (s : ElasticDie) (run : List ElasticStep)
    (hquotas : ∀ v, s.shm.bitmapTest v = true →
      0 < (s.shm.quotas v).request ∧ (s.shm.quotas v).request ≤ (s.shm.quotas v).limit)
    (hcounted : ∀ v, heldBy s.blocks v ≤ s.shm.usedBytes v) (hreserved : s.shm.Reserved) :
    Throughout step (fun s => s.shm.Reserved ∧ ∀ v size, s.shm.bitmapTest v = true →
      s.shm.usedBytes v + size ≤ s.shm.requestBytes v →
      ∑ u ∈ s.shm.vnpus.toFinset, s.shm.usedBytes u + size ≤ s.shm.hbmTotal.toNat) s run := by
  have hinv : Throughout step ElasticInv s run := by
    apply throughout_of_step ⟨hquotas, hcounted, hreserved⟩ _ (eachStep_of_forall fun _ _ => trivial)
    intro s l hs _
    cases l with
    | malloc v size swapOutOk => exact elasticInv_malloc hs v size swapOutOk
    | free b => exact elasticInv_free hs b
  apply hinv.mono
  intro s hs
  refine ⟨hs.reserved, fun v size hbit hfits => ?_⟩
  exact sum_used_add_le (mem_toFinset.mpr (mem_vnpus.mpr hbit)) hs.reserved hfits

/-- Two vNPUs that request 1 MB and may use 4 MB each, on a die of 8 MB. -/
def twoVnpus : ElasticDie :=
  { shm := { create "die0" with
      hbmTotal := 8388608
      entries := fun _ => { VnpuShmEntry.zero with hbmRequest := 1, hbmLimit := 4 }
      vnpuBitmap := fun v => decide (v < 2) }
    blocks := [] }

/-- One of them borrows 2 MB, the other uses its request, and the first gives back. -/
theorem twoVnpus_reserved :
    Throughout step (fun s => s.shm.Reserved ∧ ∀ v size, s.shm.bitmapTest v = true →
      s.shm.usedBytes v + size ≤ s.shm.requestBytes v →
      ∑ u ∈ s.shm.vnpus.toFinset, s.shm.usedBytes u + size ≤ s.shm.hbmTotal.toNat) twoVnpus
      [.malloc 0 3145728 true, .malloc 1 1048576 true, .free ⟨0, 3145728⟩] := by
  apply reservation_kept
  · intro v _
    have hquotas : twoVnpus.shm.quotas v = ⟨1 * mbToB, 4 * mbToB⟩ := rfl
    rw [hquotas]
    decide
  · intro v
    exact Nat.zero_le _
  · rw [Reserved]
    decide +kernel

end ElasticDie

end UbsVirt.Enpu
