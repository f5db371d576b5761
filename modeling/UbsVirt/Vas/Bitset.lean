import Mathlib.Algebra.GroupWithZero.Nat
import UbsVirt.Lib.Areas

/-!
# Dynamic bitsets

The bitmaps of the virtual-machine scheduler: a set bit is a CPU that may not be taken.
Bitsets are `std::vector<bool>`, positions inside a cluster fit in an `int16_t`. An area that
does not lie inside the bitset raises an exception that the callers catch and log, so the
bitset stays as it is. Source: `virt-awaresched/src/util/dynamic_bitset.cpp`.
-/

namespace UbsVirt.Vas

open Areas List

/-- The positions of an area get the value `val`; `none` is the exception.
`dynamic_bitset.cpp:272-281`. -/
def dynamicBitsetSetArea (bitSet : List Bool) (start size : Nat) (val : Bool) :
    Option (List Bool) :=
  if size = 0 ∨ bitSet.length < start ∨ bitSet.length - start < size then none
  else some (fill val start size bitSet)

/-- `dynamic_bitset.cpp:27-34`. -/
def dynamicBitsetSet (bitSet : List Bool) (start size : Nat) : List Bool :=
  (dynamicBitsetSetArea bitSet start size true).getD bitSet

/-- `dynamic_bitset.cpp:42-49`. -/
def dynamicBitsetClear (bitSet : List Bool) (start size : Nat) : List Bool :=
  (dynamicBitsetSetArea bitSet start size false).getD bitSet

/-- `dynamic_bitset.cpp:56-63`. -/
def dynamicBitsetNot (src : List Bool) : List Bool :=
  src.map (!·)

/-- Bitsets of different sizes are not combined: the destination stays as it is.
`dynamic_bitset.cpp:70-79`. -/
def dynamicBitsetOr (dst src : List Bool) : List Bool :=
  if dst.length ≠ src.length then dst else zipWith (· || ·) dst src

/-- `dynamic_bitset.cpp:86-95`. -/
def dynamicBitsetAnd (dst src : List Bool) : List Bool :=
  if dst.length ≠ src.length then dst else zipWith (· && ·) dst src

/-- `dynamic_bitset.cpp:103-112`. -/
def isDynamicBitsetCross (first second : List Bool) : Bool :=
  (zipWith (· && ·) first second).any id

/-- `dynamic_bitset.cpp:121-126`. -/
def genDynamicBitSetByArea (totalSize start size : Nat) : List Bool :=
  dynamicBitsetSet (replicate totalSize false) start size

/-- The CPU set is a `std::set`, so its first and last element are its bounds.
`dynamic_bitset.cpp:134-142`. -/
def genClusterBitSetByCpuSet (bitSet : List Bool) (cpuSet : List Nat) : List Bool :=
  match cpuSet.head?, cpuSet.getLast? with
  | some first, some last =>
    if bitSet.length ≤ last then [] else (bitSet.drop first).take (last + 1 - first)
  | _, _ => []

/-- The loop of `findFirstIdlePos` over the positions from `i` on. The count of clear bits is
not reset at a set bit. -/
def scanIdle (size : Nat) : List Bool → (i : Nat) → (result : Option Nat) → (idleCount : Nat) →
    Option Nat
  | [], _, _, _ => none
  | bit :: rest, i, result, idleCount =>
    if idleCount = 0 ∧ rest.length + 1 < size then none
    else
      let found := if !bit ∧ idleCount = 0 then some i else result
      let count := if bit then idleCount else idleCount + 1
      if count = size then found else scanIdle size rest (i + 1) found count

/-- `dynamic_bitset.cpp:152-178`. -/
def findFirstIdlePos (bitSet : List Bool) (start size : Nat) : Option Nat :=
  if size = 0 ∨ bitSet.length < start ∨ bitSet.length - start < size then none
  else scanIdle size (bitSet.drop start) start none 0

/-- `dynamic_bitset.cpp:201-208`. -/
def genDynamicBitsetByCpuSet (totalSize : Nat) (cpuSet : List Nat) : List Bool :=
  cpuSet.foldl (fun bitSet cpuId => dynamicBitsetSet bitSet cpuId 1)
    (replicate totalSize false)

/-- `dynamic_bitset.cpp:263-270`. -/
def dynamicBitsetCut (origin : List Bool) (start size : Nat) : List Bool :=
  (range size).map fun i => (origin[start + i]?).getD false

/-! ### Setting and clearing -/

variable {i : Nat}

section

variable {bitSet : List Bool} {start size : Nat}

theorem dynamicBitsetSet_eq (h : start + size ≤ bitSet.length) (hsize : 0 < size) :
    dynamicBitsetSet bitSet start size = fill true start size bitSet := by
  unfold dynamicBitsetSet dynamicBitsetSetArea
  rw [if_neg (by omega)]
  rfl

theorem dynamicBitsetClear_eq (h : start + size ≤ bitSet.length) (hsize : 0 < size) :
    dynamicBitsetClear bitSet start size = fill false start size bitSet := by
  unfold dynamicBitsetClear dynamicBitsetSetArea
  rw [if_neg (by omega)]
  rfl

@[simp]
theorem length_dynamicBitsetSet : (dynamicBitsetSet bitSet start size).length = bitSet.length := by
  unfold dynamicBitsetSet dynamicBitsetSetArea
  split
  · rfl
  · show (fill true start size bitSet).length = _
    rw [length_fill (by omega)]

theorem genDynamicBitSetByArea_isArea {totalSize : Nat} (h : start + size ≤ totalSize)
    (hsize : 0 < size) : IsArea true start size (genDynamicBitSetByArea totalSize start size) := by
  have hlen : start + size ≤ (replicate totalSize false).length := by
    rwa [length_replicate]
  unfold genDynamicBitSetByArea
  rw [dynamicBitsetSet_eq hlen hsize]
  exact fill_isArea hlen

/-- Setting bits never clears one. -/
theorem dynamicBitsetSet_mono (hi : bitSet[i]? = some true) :
    (dynamicBitsetSet bitSet start size)[i]? = some true := by
  unfold dynamicBitsetSet dynamicBitsetSetArea
  split
  · exact hi
  · show (fill true start size bitSet)[i]? = some true
    rw [getElem?_fill (by omega)]
    split
    · rfl
    · exact hi

end

/-! ### Combining -/

@[simp]
theorem length_dynamicBitsetNot (src : List Bool) : (dynamicBitsetNot src).length = src.length := by
  simp [dynamicBitsetNot]

@[simp]
theorem length_dynamicBitsetCut (origin : List Bool) (start size : Nat) :
    (dynamicBitsetCut origin start size).length = size := by
  simp [dynamicBitsetCut]

@[simp]
theorem length_dynamicBitsetOr (dst src : List Bool) :
    (dynamicBitsetOr dst src).length = dst.length := by
  unfold dynamicBitsetOr
  split
  · rfl
  · next h =>
    rw [length_zipWith]
    omega

/-- A clear bit of a union of equal size is clear in both. -/
theorem dynamicBitsetOr_false {dst src : List Bool} (hlen : dst.length = src.length)
    (h : (dynamicBitsetOr dst src)[i]? = some false) :
    dst[i]? = some false ∧ src[i]? = some false := by
  unfold dynamicBitsetOr at h
  rw [if_neg (by omega), getElem?_zipWith] at h
  cases hd : dst[i]? with
  | none => simp [hd] at h
  | some x =>
    cases hs : src[i]? with
    | none => simp [hd, hs] at h
    | some y =>
      rw [hd, hs] at h
      simp only [Option.some.injEq, Bool.or_eq_false_iff] at h
      rw [h.1, h.2]
      exact ⟨rfl, rfl⟩

variable {start size : Nat}

/-- A clear bit of the complement of a cut is a set bit of the origin. -/
theorem dynamicBitsetNot_cut_false {origin : List Bool}
    (h : (dynamicBitsetNot (dynamicBitsetCut origin start size))[i]? = some false) :
    i < size ∧ origin[start + i]? = some true := by
  have hlt : i < size := by
    have := (List.getElem?_eq_some_iff.mp h).1
    simpa using this
  refine ⟨hlt, ?_⟩
  unfold dynamicBitsetNot dynamicBitsetCut at h
  rw [getElem?_map, getElem?_map, getElem?_range hlt] at h
  cases hb : origin[start + i]? with
  | none => simp [hb] at h
  | some b => simpa [hb] using h

theorem getElem?_genDynamicBitsetByCpuSet (totalSize : Nat) (cpuSet : List Nat)
    (hi : i < totalSize) : (genDynamicBitsetByCpuSet totalSize cpuSet)[i]? =
      some (decide (i ∈ cpuSet)) := by
  -- the fold marks the CPUs of the list on top of what is marked already
  have hfold : ∀ (cpus : List Nat) (bits : List Bool), bits.length = totalSize →
      (cpus.foldl (fun bitSet cpuId => dynamicBitsetSet bitSet cpuId 1) bits)[i]? =
        if i ∈ cpus then some true else bits[i]? := by
    intro cpus
    induction cpus with
    | nil => intro bits _; simp
    | cons c cpus ih =>
      intro bits hlen
      rw [foldl_cons, ih _ (by rw [length_dynamicBitsetSet, hlen])]
      by_cases hmem : i ∈ cpus
      · simp [hmem]
      · rw [if_neg hmem]
        by_cases hc : c + 1 ≤ totalSize
        · rw [dynamicBitsetSet_eq (by omega) (by omega), getElem?_fill (by omega)]
          by_cases hic : i = c
          · subst hic
            simp
          · rw [if_neg (by omega), if_neg (by simp [hic, hmem])]
        · have hsame : dynamicBitsetSet bits c 1 = bits := by
            unfold dynamicBitsetSet dynamicBitsetSetArea
            rw [if_pos (by omega)]
            rfl
          have hic : i ≠ c := by omega
          rw [hsame, if_neg (by simp [hic, hmem])]
  unfold genDynamicBitsetByCpuSet
  rw [hfold cpuSet _ (length_replicate ..)]
  by_cases hmem : i ∈ cpuSet
  · simp [hmem]
  · simp [hmem, hi]

theorem length_genDynamicBitsetByCpuSet (totalSize : Nat) (cpuSet : List Nat) :
    (genDynamicBitsetByCpuSet totalSize cpuSet).length = totalSize := by
  have hfold : ∀ (cpus : List Nat) (bits : List Bool),
      (cpus.foldl (fun bitSet cpuId => dynamicBitsetSet bitSet cpuId 1) bits).length =
        bits.length := by
    intro cpus
    induction cpus with
    | nil => intro bits; rfl
    | cons c cpus ih =>
      intro bits
      rw [foldl_cons, ih, length_dynamicBitsetSet]
  unfold genDynamicBitsetByCpuSet
  rw [hfold, length_replicate]

/-! ### Searching for clear bits -/

variable {p : Nat}

/-- Once the first clear bit is found, the scan only counts: it succeeds when enough clear
bits are left, wherever they are. -/
theorem scanIdle_counting {rest : List Bool} {count : Nat} (hcount : 0 < count)
    (hlt : count < size) :
    scanIdle size rest i (some p) count =
      if size ≤ count + rest.count false then some p else none := by
  induction rest generalizing i count with
  | nil =>
    rw [count_nil, if_neg (by omega)]
    rfl
  | cons bit rest ih =>
    unfold scanIdle
    rw [if_neg (by omega)]
    cases bit with
    | true =>
      simp only [Bool.not_true, Bool.false_eq_true, false_and, if_false, if_true]
      rw [if_neg (by omega), ih hcount hlt]
      simp
    | false =>
      have hne : count ≠ 0 := by omega
      simp only [Bool.not_false, true_and, hne, if_false, Bool.false_eq_true, count_cons_self]
      split
      · rw [if_pos (by omega)]
      · rw [ih (by omega) (by omega)]
        congr 1
        simp only [eq_iff_iff]
        omega

/-- The scan succeeds when there are enough clear bits, and finds the first of them. -/
theorem scanIdle_eq {rest : List Bool} (hsize : 0 < size) : scanIdle size rest i none 0 =
      if size ≤ rest.count false then some (i + rest.findIdx (!·)) else none := by
  induction rest generalizing i with
  | nil =>
    rw [count_nil, if_neg (by omega)]
    rfl
  | cons bit rest ih =>
    have hcount : rest.count false ≤ rest.length := count_le_length
    unfold scanIdle
    cases bit with
    | true =>
      simp only [Bool.not_true, Bool.false_eq_true, false_and, if_false, if_true]
      rw [if_neg (by omega : ¬ 0 = size), ih]
      simp only [true_and, count_cons, findIdx_cons]
      split
      · rw [if_neg (by simp; omega)]
      · simp [Nat.add_comm, Nat.add_left_comm]
    | false =>
      simp only [Bool.not_false, true_and, if_true, Bool.false_eq_true, if_false, Nat.zero_add,
        count_cons_self, findIdx_cons, cond_true, Nat.add_zero]
      split
      · rw [if_neg (by omega)]
      split
      · rw [if_pos (by omega)]
      · rw [scanIdle_counting (by omega) (by omega), Nat.add_comm]

variable {bitSet : List Bool}

theorem findFirstIdlePos_eq (hsize : 0 < size) : findFirstIdlePos bitSet start size =
      if size ≤ (bitSet.drop start).count false then
        some (start + (bitSet.drop start).findIdx (!·)) else none := by
  have hcount : (bitSet.drop start).count false ≤ (bitSet.drop start).length := count_le_length
  rw [length_drop] at hcount
  unfold findFirstIdlePos
  split
  · rw [if_neg (by omega)]
  · exact scanIdle_eq hsize

theorem getElem?_findIdx (h : 0 < bitSet.count false) :
    bitSet[bitSet.findIdx (!·)]? = some false := by
  have hlt : bitSet.findIdx (!·) < bitSet.length :=
    findIdx_lt_length_of_exists ⟨false, count_pos_iff.mp h, rfl⟩
  have := findIdx_getElem (w := hlt)
  rw [getElem?_eq_getElem hlt]
  simpa using this

theorem getElem?_of_lt_findIdx (h : i < bitSet.findIdx (!·)) : bitSet[i]? = some true := by
  have hlt : i < bitSet.length := Nat.lt_of_lt_of_le h findIdx_le_length
  have := not_of_lt_findIdx h
  rw [getElem?_eq_getElem hlt]
  simpa using this

theorem count_drop_findIdx (bitSet : List Bool) :
    (bitSet.drop (bitSet.findIdx (!·))).count false = bitSet.count false := by
  induction bitSet with
  | nil => rfl
  | cons bit rest ih =>
    cases bit with
    | true => simp [findIdx_cons, ih]
    | false => simp [findIdx_cons]

/-- The position found is the first clear bit from the start on, and at least `size` bits
from there on are clear; they need not follow each other. -/
theorem findFirstIdlePos_some (h : findFirstIdlePos bitSet start size = some p) :
    0 < size ∧ start ≤ p ∧ bitSet[p]? = some false ∧
      (∀ k, start ≤ k → k < p → bitSet[k]? = some true) ∧
      size ≤ (bitSet.drop p).count false := by
  have hsize : 0 < size := by
    apply Nat.pos_of_ne_zero
    rintro rfl
    simp [findFirstIdlePos] at h
  rw [findFirstIdlePos_eq hsize] at h
  split at h
  next hcount =>
    cases h
    have hclear := getElem?_findIdx (Nat.lt_of_lt_of_le hsize hcount)
    refine ⟨hsize, by omega, by rwa [getElem?_drop] at hclear, fun k hlo hhi => ?_, ?_⟩
    · have := getElem?_of_lt_findIdx (by omega : k - start < (bitSet.drop start).findIdx (!·))
      rwa [getElem?_drop, Nat.add_sub_cancel' hlo] at this
    · rwa [← drop_drop, count_drop_findIdx]
  · cases h

theorem findFirstIdlePos_le_length
    (h : findFirstIdlePos bitSet start size = some p) : p + size ≤ bitSet.length := by
  have hcount := (findFirstIdlePos_some h).2.2.2.2
  have hlen : (bitSet.drop p).count false ≤ (bitSet.drop p).length := count_le_length
  rw [length_drop] at hlen
  have hp := (List.getElem?_eq_some_iff.mp (findFirstIdlePos_some h).2.2.1).1
  omega

/-- The first clear bit starts a run of at least `size` clear bits, or there are fewer clear
bits than that. -/
def Unfragmented (bitSet : List Bool) (size : Nat) : Prop :=
  bitSet.count false < size ∨ ∀ bit ∈ (bitSet.dropWhile id).take size, bit = false

instance (bitSet : List Bool) (size : Nat) : Decidable (Unfragmented bitSet size) :=
  inferInstanceAs (Decidable (_ ∨ _))

/-- The area at the position found is clear exactly when the bitmap is unfragmented for the
size asked for. -/
theorem isArea_findFirstIdlePos_iff (h : findFirstIdlePos bitSet start size = some p) :
    IsArea false p size bitSet ↔ Unfragmented (bitSet.drop start) size := by
  have hle := findFirstIdlePos_le_length h
  rw [findFirstIdlePos_eq (findFirstIdlePos_some h).1] at h
  split at h
  next hcount =>
    cases h
    have hfirst : (bitSet.drop start).dropWhile id =
        bitSet.drop (start + (bitSet.drop start).findIdx (!·)) := by
      rw [← drop_drop]
      exact dropWhile_eq_drop_findIdx_not
    generalize start + (bitSet.drop start).findIdx (!·) = p at hle hfirst
    rw [Unfragmented, hfirst, or_iff_right (Nat.not_lt.mpr hcount)]
    constructor
    · intro harea bit hbit
      obtain ⟨i, hi, rfl⟩ := getElem_of_mem hbit
      rw [length_take] at hi
      have := harea (p + i) (by omega) (by omega)
      rw [getElem_take, getElem_drop]
      exact (List.getElem?_eq_some_iff.mp this).2
    · intro hall i hlo hhi
      have hmem : ((bitSet.drop p).take size)[i - p]? = bitSet[i]? := by
        rw [getElem?_take_of_lt (by omega), getElem?_drop, Nat.add_sub_cancel' hlo]
      have hlt : i < bitSet.length := by omega
      rw [getElem?_eq_getElem hlt] at hmem ⊢
      rw [hall _ (mem_of_getElem? hmem)]
  · cases h

/-- A clear area from the start on is looked for from the first clear bit on, among enough clear
bits. -/
theorem findFirstIdlePos_of_isArea (hsize : 0 < size) (hstart : start ≤ i)
    (harea : IsArea false i size bitSet) :
    ∃ p, findFirstIdlePos bitSet start size = some p ∧ p ≤ i := by
  have hshift : IsArea false (i - start) size (bitSet.drop start) := by
    intro k hlo hhi
    rw [getElem?_drop]
    exact harea (start + k) (by omega) (by omega)
  have hcount := count_fill_true hshift (hshift.le_length hsize)
  refine ⟨_, by rw [findFirstIdlePos_eq hsize, if_pos (by omega)], ?_⟩
  by_contra hlt
  have hset := getElem?_of_lt_findIdx (by omega : i - start < (bitSet.drop start).findIdx (!·))
  rw [hshift (i - start) (by omega) (by omega)] at hset
  cases hset

/-- What the search is for: the first position from the start on at which a clear area of the size
begins, or none when there is no such position. -/
def IsFirstIdle (bitSet : List Bool) (start size : Nat) : Option Nat → Prop
  | some p => start ≤ p ∧ IsArea false p size bitSet ∧
      ∀ r, start ≤ r → IsArea false r size bitSet → p ≤ r
  | none => ∀ r, start ≤ r → ¬ IsArea false r size bitSet

/-- The search answers that for the bitmaps that are unfragmented from the start on, and for no
other. -/
theorem isFirstIdle_findFirstIdlePos_iff (bitSet : List Bool) (start size : Nat)
    (hsize : 0 < size) :
    IsFirstIdle bitSet start size (findFirstIdlePos bitSet start size) ↔
      Unfragmented (bitSet.drop start) size := by
  cases hfind : findFirstIdlePos bitSet start size with
  | none =>
    have hcount : (bitSet.drop start).count false < size := by
      by_contra hcount
      rw [findFirstIdlePos_eq hsize, if_pos (by omega)] at hfind
      cases hfind
    refine ⟨fun _ => .inl hcount, fun _ r hr h => ?_⟩
    obtain ⟨q, hq, -⟩ := findFirstIdlePos_of_isArea hsize hr h
    rw [hfind] at hq
    cases hq
  | some p =>
    refine ⟨fun h => (isArea_findFirstIdlePos_iff hfind).mp h.2.1, fun hfit => ?_⟩
    refine ⟨(findFirstIdlePos_some hfind).2.1, (isArea_findFirstIdlePos_iff hfind).mpr hfit, ?_⟩
    intro r hr h
    obtain ⟨q, hq, hle⟩ := findFirstIdlePos_of_isArea hsize hr h
    rw [hfind] at hq
    cases hq
    exact hle

theorem isFirstIdle_run :
    IsFirstIdle [true, false, false, true] 0 2 (findFirstIdlePos [true, false, false, true] 0 2) :=
  (isFirstIdle_findFirstIdlePos_iff [true, false, false, true] 0 2 (by decide)).mpr (by decide)

/-- A set bit does not restart the count. -/
theorem not_isFirstIdle_gap : ¬ IsFirstIdle [false, true, false, false] 0 2
      (findFirstIdlePos [false, true, false, false] 0 2) := by
  intro h
  cases h.2.1 1 (by decide) (by decide)

end UbsVirt.Vas
