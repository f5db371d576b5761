import Mathlib.Algebra.Order.BigOperators.Group.List
import Mathlib.Algebra.Order.Ring.Nat
import Mathlib.Algebra.Group.Action.Defs
import UbsVirt.Enpu.Registry
import UbsVirt.Enpu.RtConfig

/-!
# The runtime reads what the manager writes

`generate_config_content` writes one line `key=value` for every option. For a configuration
within the bounds the allocator keeps, the runtime's reader takes every line, passes its own
checks and ends with the values that were written. Source:
`enpu-manager/core/src/config_manager.c:65-93`, `vcann-rt/src/utils/config.c:73-264`,
`vcann-rt/src/npu_manager.c:138-178`.
-/

namespace UbsVirt.Enpu

open Text List ConfigOption SchedPolicy
open VnpuPriority (normal high)

/-! ### What is written -/

/-- The id of a die or of its shared memory: not empty, at most 63 printable characters
without blanks, no path separator and no `..`. -/
structure DieName (id : String) : Prop where
  ne_empty : id ≠ ""
  length_le : id.toList.length ≤ 63
  printable : ∀ c ∈ id.toList, '!' ≤ c ∧ c ≤ '~'
  no_slash : '/' ∉ id.toList
  no_dots : ¬ ['.', '.'] <:+: id.toList

/-- The bounds of a configuration that the allocator writes. -/
structure VnpuConfig.Bounded (c : VnpuConfig) : Prop where
  phyNpuId : 0 ≤ c.phyNpuId ∧ c.phyNpuId < maxNpuPerNode
  vnpuId : c.vnpuId < 64
  request_pos : 0 < c.memoryRequest.toNat
  request_le : c.memoryRequest.toNat ≤ c.memoryLimit.toNat
  limit_lt : c.memoryLimit.toNat < 2 ^ 44
  compute : (c.vnpuPriority = .normal ∧ 0 < c.aicoreQuota.toInt ∧ c.aicoreQuota.toInt ≤ 100) ∨
    (c.vnpuPriority = .high ∧ c.aicoreQuota = 0 ∧ c.schedulingPolicy = .bestEffort)
  shmId : DieName c.shmId

def configEntries (c : VnpuConfig) : List (ConfigOption × List Char) :=
  [(.npuId, (toString c.phyNpuId).toList),
    (.vnpuId, (toString c.vnpuId).toList),
    (.aicoreQuota, (toString c.aicoreQuota.toInt).toList),
    (.memoryRequest, (toString c.memoryRequest.toNat).toList),
    (.memoryLimit, (toString c.memoryLimit.toNat).toList),
    (.shmId, c.shmId.toList),
    (.schedulingPolicy, (toString c.schedulingPolicy.code).toList),
    (.vnpuPriority, (toString c.vnpuPriority.code).toList)]

def entryLine (e : ConfigOption × List Char) : List Char :=
  e.1.text.toList ++ '=' :: e.2

/-- The keys of the writer are those of the reader. -/
theorem generateConfigContent_keys (c : VnpuConfig) : generateConfigContent c =
      npuId.text ++ "=" ++ toString c.phyNpuId ++ "\n" ++
      (vnpuId.text ++ "=") ++ toString c.vnpuId ++ "\n" ++
      (aicoreQuota.text ++ "=") ++ toString c.aicoreQuota.toInt ++ "\n" ++
      (memoryRequest.text ++ "=") ++ toString c.memoryRequest.toNat ++ "\n" ++
      (memoryLimit.text ++ "=") ++ toString c.memoryLimit.toNat ++ "\n" ++
      (shmId.text ++ "=") ++ c.shmId ++ "\n" ++
      (schedulingPolicy.text ++ "=") ++ toString c.schedulingPolicy.code ++ "\n" ++
      (vnpuPriority.text ++ "=") ++ toString c.vnpuPriority.code ++ "\n" :=
  rfl

theorem generateConfigContent_toList (c : VnpuConfig) : (generateConfigContent c).toList =
      ((configEntries c).map entryLine).flatMap (· ++ ['\n']) := by
  have hnl : "\n".toList = ['\n'] := by decide
  have heq : "=".toList = ['='] := by decide
  rw [generateConfigContent_keys]
  simp only [String.toList_append, hnl, heq, configEntries, map_cons, map_nil,
    flatMap_cons, flatMap_nil, entryLine, append_assoc, cons_append,
    nil_append, append_nil]

/-! ### Numbers -/

/-- Decimal digits are above the characters the reader drops. -/
theorem printable_of_isDigit {c : Char} (h : c.isDigit = true) : '!' ≤ c := by
  have hc := Char.isDigit_iff_toNat.mp h
  have h0 : ('0' : Char).toNat = 48 := rfl
  have h1 : ('!' : Char).toNat = 33 := rfl
  show ('!' : Char).toNat ≤ c.toNat
  omega

theorem toList_toString_natCast (n : Nat) : (toString (n : Int)).toList = Nat.toDigits 10 n :=
  Nat.toList_repr

theorem loadInt32_decimal {n : Nat} (hn : n < 2 ^ 31) :
    loadInt32 (Nat.toDigits 10 n) = some (n : Int) := by
  have hrange : ¬ ((n : Int) < -2 ^ 31 ∨ (2 : Int) ^ 31 ≤ n) := by omega
  have hset : (n : Int) ≠ -1 := by omega
  unfold loadInt32
  rw [strtol_decimal (by omega)]
  simp only [Bool.false_eq_true, if_false, hrange, hset]

variable {x : Int}

/-- A number that is not negative and fits 32 bits is loaded as it was written. -/
theorem loadInt32_toString (h0 : 0 ≤ x) (h31 : x < 2 ^ 31) :
    loadInt32 (toString x).toList = some x := by
  obtain ⟨n, rfl⟩ := Int.eq_ofNat_of_zero_le h0
  rw [toList_toString_natCast]
  exact loadInt32_decimal (by omega)

theorem loadUint64_toString {x : UInt64} (hx : x.toNat < 2 ^ 64 - 1) :
    loadUint64 (toString x.toNat).toList = some x := by
  have hmax : x ≠ UInt64.ofNat (2 ^ 64 - 1) := by
    rintro rfl
    exact absurd hx (by decide)
  unfold loadUint64
  rw [Nat.toString_eq_repr, Nat.toList_repr, strtoull_decimal]
  simp only [Bool.false_eq_true, if_false, hmax]

/-! ### Lines -/

/-- A value the reader takes as it is: no character of it is dropped, and it leaves room for
the key in the buffer. -/
def Plain (value : List Char) : Prop :=
  (∀ c ∈ value, '!' ≤ c) ∧ value.length ≤ 63

theorem plain_decimal {n : Nat} (hn : n < 10 ^ 63) : Plain (Nat.toDigits 10 n) :=
  ⟨fun _ hc => printable_of_isDigit (isDigit_of_mem_decimal hc),
    (Nat.length_toDigits_le_iff (by omega) (by omega)).mpr hn⟩

theorem plain_toString (h0 : 0 ≤ x) (h31 : x < 2 ^ 31) : Plain (toString x).toList := by
  obtain ⟨n, rfl⟩ := Int.eq_ofNat_of_zero_le h0
  rw [toList_toString_natCast]
  exact plain_decimal (by omega)

theorem plain_toNat (x : UInt64) : Plain (toString x.toNat).toList := by
  rw [Nat.toString_eq_repr, Nat.toList_repr]
  have := x.toNat_lt
  exact plain_decimal (by omega)

theorem DieName.plain {id : String} (h : DieName id) : Plain id.toList :=
  ⟨fun c hc => (h.printable c hc).1, h.length_le⟩

/-- Checking the characters of a text one by one. -/
theorem forall_mem_of_all {P : Char → Prop} [DecidablePred P] {cs : List Char}
    (h : cs.all (fun c => decide (P c)) = true) : ∀ c ∈ cs, P c :=
  fun c hc => of_decide_eq_true (all_eq_true.mp h c hc)

/-- No key has a character that the reader drops or splits at, and none starts a comment. -/
theorem text_chars (o : ConfigOption) :
    (∀ c ∈ o.text.toList, '!' ≤ c ∧ c ≠ '=') ∧ o.text.toList.length ≤ 17 ∧
      ∃ c cs, o.text.toList = c :: cs ∧ c ≠ '#' := by
  cases o <;> exact ⟨forall_mem_of_all (by decide), by decide, _, _, rfl, by decide⟩

variable {o : ConfigOption} {value : List Char}

theorem entryLine_printable (h : Plain value) : ∀ c ∈ entryLine (o, value), '!' ≤ c := by
  intro c hc
  rcases mem_append.mp hc with hkey | hvalue
  · exact ((text_chars o).1 c hkey).1
  · rcases mem_cons.mp hvalue with rfl | hvalue
    · decide
    · exact h.1 c hvalue

/-- The line of an option fits the buffer of the reader. -/
theorem entryLine_fits (h : Plain value) :
    '\n' ∉ entryLine (o, value) ∧ (entryLine (o, value)).length < 255 := by
  constructor
  · intro hmem
    exact absurd (entryLine_printable h '\n' hmem) (by decide)
  · have hkey := (text_chars o).2.1
    have hvalue := h.2
    simp only [entryLine, length_append, length_cons]
    omega

/-- Cleaning a line of printable characters only drops its newline. -/
theorem cleanLine_newline {line : List Char} (h : ∀ c ∈ line, '!' ≤ c) :
    cleanLine (line ++ ['\n']) = line := by
  have hnul : ∀ c ∈ line ++ ['\n'], decide (c ≠ '\x00') = true := by
    intro c hc
    rcases mem_append.mp hc with hc | hc
    · have hle := h c hc
      refine decide_eq_true ?_
      rintro rfl
      exact absurd hle (by decide)
    · rw [mem_singleton.mp hc]
      decide
  have hkeep : line.filter (fun c => decide ('!' ≤ c)) = line :=
    filter_eq_self.mpr fun c hc => decide_eq_true (h c hc)
  unfold cleanLine
  rw [takeWhile_eq_self_iff.mpr hnul, filter_append, hkeep]
  simp

/-- The reader splits the line of an option where the writer joined it. -/
theorem span_entryLine (o : ConfigOption) (value : List Char) :
    (entryLine (o, value)).span (fun c => decide (c ≠ '=')) = (o.text.toList, '=' :: value) := by
  have hkey : ∀ c ∈ o.text.toList, decide (c ≠ '=') = true :=
    fun c hc => decide_eq_true ((text_chars o).1 c hc).2
  rw [span_eq_takeWhile_dropWhile, entryLine, takeWhile_append_of_pos hkey,
    dropWhile_append_of_pos hkey]
  simp

/-- The line of an option whose value can be loaded sets that option. -/
theorem loadLine_entry {st : RtConfig × Bool}
    {c : RtConfig} (hplain : Plain value) (hsave : saveOption st.1 value o = some c) :
    loadLine st (entryLine (o, value) ++ ['\n']) = (c, st.2) := by
  obtain ⟨x, xs, hx, hne⟩ := (text_chars o).2.2
  have hcomment : ¬ ((entryLine (o, value)).head? = some '#' ∨ entryLine (o, value) = []) := by
    simp [entryLine, hx, hne]
  have hsave' : save2config st.1 o.text.toList value = some c := by
    rwa [save2config, ofKey_text]
  unfold loadLine
  simp only [cleanLine_newline (entryLine_printable hplain), if_neg hcomment, span_entryLine,
    hsave']

/-- Lines whose values can be loaded set their options one after the other. -/
theorem foldl_loadLine {es : List (ConfigOption × List Char)} {c c' : RtConfig} {invalid : Bool}
    (hplain : ∀ e ∈ es, Plain e.2)
    (hsave : es.foldlM (fun c e => saveOption c e.2 e.1) c = some c') :
    es.foldl (fun st e => loadLine st (entryLine e ++ ['\n'])) (c, invalid) = (c', invalid) := by
  induction es generalizing c with
  | nil =>
    rw [foldlM_nil] at hsave
    cases hsave
    rfl
  | cons e es ih =>
    rw [foldlM_cons] at hsave
    obtain ⟨c₁, hc₁, hrest⟩ := Option.bind_eq_some_iff.mp hsave
    rw [foldl_cons, loadLine_entry (hplain e mem_cons_self) hc₁]
    exact ih (fun e he => hplain e (mem_cons_of_mem _ he)) hrest

/-! ### The file -/

def VnpuConfig.loaded (c : VnpuConfig) : RtConfig :=
  { phyNpuId := c.phyNpuId, vnpuId := c.vnpuId, aicoreQuota := c.aicoreQuota.toInt
    memoryQuota := invalidValue, memoryRequest := c.memoryRequest, memoryLimit := c.memoryLimit
    schedulingPolicy := c.schedulingPolicy.code, vnpuPriority := c.vnpuPriority.code
    shmId := c.shmId }

theorem SchedPolicy.code_range (p : SchedPolicy) : 1 ≤ p.code ∧ p.code ≤ 3 := by
  cases p <;> decide

theorem VnpuPriority.code_range (p : VnpuPriority) : 0 ≤ p.code ∧ p.code ≤ 1 := by
  cases p <;> decide

namespace VnpuConfig.Bounded

variable {c : VnpuConfig}

section

variable (h : c.Bounded)
include h

theorem aicore_range : 0 ≤ c.aicoreQuota.toInt ∧ c.aicoreQuota.toInt ≤ 100 := by
  rcases h.compute with ⟨-, hpos, hle⟩ | ⟨-, hzero, -⟩
  · omega
  · rw [hzero]
    decide

/-- Every value the manager writes is taken as it is. -/
theorem plain_entry : ∀ e ∈ configEntries c, Plain e.2 := by
  have hphy := h.phyNpuId
  have hvnpu := h.vnpuId
  have hquota := h.aicore_range
  have hpolicy := c.schedulingPolicy.code_range
  have hpriority := c.vnpuPriority.code_range
  have hmax : (maxNpuPerNode : Int) = 16 := rfl
  intro e he
  simp only [configEntries, mem_cons, not_mem_nil, or_false] at he
  rcases he with rfl | rfl | rfl | rfl | rfl | rfl | rfl | rfl
  · exact plain_toString hphy.1 (by omega)
  · show Plain (toString c.vnpuId).toList
    rw [Nat.toString_eq_repr, Nat.toList_repr]
    exact plain_decimal (by omega)
  · exact plain_toString hquota.1 (by omega)
  · exact plain_toNat _
  · exact plain_toNat _
  · exact h.shmId.plain
  · exact plain_toString (by omega) (by omega)
  · exact plain_toString (by omega) (by omega)

theorem loadStr_shmId : loadStr c.shmId.toList rtShmIdLen = some c.shmId := by
  have hlen := h.shmId.length_le
  have hlt : ¬ rtShmIdLen ≤ c.shmId.toList.length := by
    have : rtShmIdLen = 128 := rfl
    omega
  unfold loadStr
  rw [if_neg hlt, String.ofList_toList]

/-- Every value can be loaded, and the fields it is stored in hold what was written. -/
theorem saveOption_entries :
    (configEntries c).foldlM (fun c e => saveOption c e.2 e.1) resetConfig = some c.loaded := by
  have hphy := h.phyNpuId
  have hvnpu := h.vnpuId
  have hquota := h.aicore_range
  have hpolicy := c.schedulingPolicy.code_range
  have hpriority := c.vnpuPriority.code_range
  have hrequest := h.request_le
  have hlimit := h.limit_lt
  have hmax : (maxNpuPerNode : Int) = 16 := rfl
  have l₁ : loadInt32 (toString c.phyNpuId).toList = _ := loadInt32_toString hphy.1 (by omega)
  have l₂ : loadInt32 (toString c.vnpuId).toList = some (c.vnpuId : Int) := by
    rw [Nat.toString_eq_repr, Nat.toList_repr]
    exact loadInt32_decimal (by omega)
  have l₃ : loadInt32 (toString c.aicoreQuota.toInt).toList = _ :=
    loadInt32_toString hquota.1 (by omega)
  have l₄ : loadUint64 (toString c.memoryRequest.toNat).toList = _ :=
    loadUint64_toString (by omega)
  have l₅ : loadUint64 (toString c.memoryLimit.toNat).toList = _ :=
    loadUint64_toString (by omega)
  have l₆ : loadInt32 (toString c.schedulingPolicy.code).toList = _ :=
    loadInt32_toString (by omega) (by omega)
  have l₇ : loadInt32 (toString c.vnpuPriority.code).toList = _ :=
    loadInt32_toString (by omega) (by omega)
  simp only [configEntries, foldlM_cons, foldlM_nil, saveOption, l₁, l₂, l₃, l₄, l₅, l₆,
    l₇, h.loadStr_shmId, Option.map_some, Option.bind_eq_bind, Option.bind_some]
  rfl

/-- The reading loop takes every line of the file. -/
theorem foldLines_generated :
    foldLines 255 loadLine (resetConfig, false) (generateConfigContent c).toList =
      (c.loaded, false) := by
  have hlines : ∀ line ∈ (configEntries c).map entryLine, '\n' ∉ line ∧ line.length < 255 := by
    intro line hline
    obtain ⟨e, he, rfl⟩ := mem_map.mp hline
    exact entryLine_fits (h.plain_entry e he)
  rw [generateConfigContent_toList, foldLines_lines hlines, foldl_map]
  exact foldl_loadLine h.plain_entry h.saveOption_entries

theorem checkShmId_shmId : checkShmId c.shmId = true := by
  simp [checkShmId, h.shmId.ne_empty, h.shmId.no_slash, h.shmId.no_dots]

/-- The loaded configuration names every option, so the last checks pass. -/
theorem checkOptions_loaded : checkOptions c.loaded = true := by
  have hphy := h.phyNpuId
  have hquota := h.aicore_range
  have hpolicy := c.schedulingPolicy.code_range
  have h₁ : c.loaded.phyNpuId ≠ invalidValue := by
    simp only [loaded, invalidValue]
    omega
  have h₂ : c.loaded.vnpuId ≠ invalidValue := by
    simp only [loaded, invalidValue]
    omega
  have h₃ : c.loaded.aicoreQuota ≠ invalidValue := by
    simp only [loaded, invalidValue]
    omega
  have h₄ : c.loaded.schedulingPolicy ≠ invalidValue := by
    simp only [loaded, invalidValue]
    omega
  simp only [checkOptions, h₁, h₂, h₃, h₄, ne_eq, not_false_eq_true, decide_true, Bool.and_self,
    Bool.true_and]
  exact h.checkShmId_shmId

/-- The configuration passes `check_config` without a change: with high priority the quota
and the policy already are what it would set. -/
theorem checkConfig_loaded : checkConfig c.loaded = some c.loaded := by
  have hpos := h.request_pos
  have hle := h.request_le
  have hrequest : c.loaded.memoryRequest ≠ 0 := by
    intro hzero
    have : c.memoryRequest.toNat = 0 := congrArg UInt64.toNat hzero
    omega
  have hlimit : c.loaded.memoryLimit ≠ 0 := by
    intro hzero
    have : c.memoryLimit.toNat = 0 := congrArg UInt64.toNat hzero
    omega
  have hpriority : ¬ (c.loaded.vnpuPriority ≠ normal.code ∧
      c.loaded.vnpuPriority ≠ high.code) := by
    rcases h.compute with ⟨hnormal, -⟩ | ⟨hhigh, -⟩
    · simp [loaded, hnormal]
    · simp [loaded, hhigh]
  have hcompute : (decide (c.loaded.vnpuPriority = high.code) &&
      (decide (c.loaded.aicoreQuota ≠ invalidValue ∧ c.loaded.aicoreQuota ≠ 0) ||
        decide (c.loaded.schedulingPolicy ≠ invalidValue ∧ c.loaded.schedulingPolicy ≠ 3))) =
      false := by
    rcases h.compute with ⟨hnormal, -⟩ | ⟨-, hquota, hpolicy⟩
    · simp [loaded, hnormal, VnpuPriority.code]
    · simp [loaded, hquota, hpolicy, code]
  have hsame : (if decide (c.loaded.vnpuPriority = high.code) = true then
      { c.loaded with aicoreQuota := 0, schedulingPolicy := 3 } else c.loaded) = c.loaded := by
    rcases h.compute with ⟨hnormal, -⟩ | ⟨-, hquota, hpolicy⟩
    · simp [loaded, hnormal, VnpuPriority.code]
    · simp [loaded, hquota, hpolicy, code]
  unfold checkConfig
  simp only [hsame, if_neg hpriority, hcompute, Bool.false_eq_true, if_false, hrequest, hlimit,
    and_self, or_self, h.checkOptions_loaded, if_true]

/-- `load_config` accepts the file and loads what was written. -/
theorem loadConfig_generated : loadConfig (generateConfigContent c) = some c.loaded := by
  unfold loadConfig
  rw [h.foldLines_generated]
  simp only [Bool.false_and, Bool.false_eq_true, if_false]
  exact h.checkConfig_loaded

/-- The text fits the buffer of 1024 bytes it is formatted in, `config_manager.c:27`. -/
theorem generateConfigContent_length_lt : (generateConfigContent c).toList.length < 1024 := by
  have hline : ∀ n ∈ ((configEntries c).map entryLine).map fun l => (l ++ ['\n']).length,
      n ≤ 82 := by
    intro n hn
    simp only [mem_map, exists_exists_and_eq_and] at hn
    obtain ⟨e, he, rfl⟩ := hn
    have hkey := (text_chars e.1).2.1
    have hvalue := (h.plain_entry e he).2
    simp only [entryLine, length_append, length_cons, length_nil]
    omega
  have hsum := sum_le_card_nsmul _ 82 hline
  rw [generateConfigContent_toList, length_flatMap]
  simp only [length_map, configEntries, length_cons, length_nil, smul_eq_mul]
    at hsum ⊢
  omega

end

end VnpuConfig.Bounded

/-! ### The runtime's own record -/

/-- The record of the runtime holds the written values, the quotas in bytes. A best-effort
vNPU is not limited in its use of the AICores, so its quota is not copied. -/
structure TakenOver (c : VnpuConfig) (g : NpuInfo) : Prop where
  pnpuId : (g.pnpuId.toNat : Int) = c.phyNpuId
  vnpuId : g.vnpuId.toNat = c.vnpuId
  vnpuPriority : (g.vnpuPriority.toNat : Int) = c.vnpuPriority.code
  memRequestQuota : g.memRequestQuota.toNat = c.memoryRequest.toNat * 2 ^ 20
  memLimitQuota : g.memLimitQuota.toNat = c.memoryLimit.toNat * 2 ^ 20
  schedPolicy : g.schedPolicy = c.schedulingPolicy.code
  isCoreLimit : g.isCoreLimit = decide (c.schedulingPolicy ≠ .bestEffort)
  coreLimitQuota : c.schedulingPolicy ≠ .bestEffort →
    (g.coreLimitQuota.toNat : Int) = c.aicoreQuota.toInt
  shmId : g.shmId = c.shmId

theorem toNat_ofInt8 (h0 : 0 ≤ x) (h8 : x < 2 ^ 8) : ((UInt8.ofInt x).toNat : Int) = x := by
  simp only [UInt8.ofInt, UInt8.toNat_ofNat']
  omega

theorem toNat_ofInt32 (h0 : 0 ≤ x) (h32 : x < 2 ^ 32) : ((UInt32.ofInt x).toNat : Int) = x := by
  simp only [UInt32.ofInt, UInt32.toNat_ofNat']
  omega

/-- A quota of less than 2^44 MB is in range, and its bytes fit 64 bits. -/
theorem quota_in_range {x : UInt64} (hpos : 0 < x.toNat) (hlt : x.toNat < 2 ^ 44) :
    ¬ (x < 1 ∨ maxMemoryQuota < x) ∧ (x * rtMbToB).toNat = x.toNat * 2 ^ 20 := by
  have hmax : maxMemoryQuota.toNat = 2 ^ 44 - 1 := by decide
  have hmb : rtMbToB.toNat = 2 ^ 20 := by decide
  have hone : (1 : UInt64).toNat = 1 := rfl
  constructor
  · rw [UInt64.lt_iff_toNat_lt, UInt64.lt_iff_toNat_lt, hmax, hone]
    omega
  · rw [UInt64.toNat_mul, hmb]
    exact Nat.mod_eq_of_lt (by omega)

theorem SchedPolicy.limited_iff (p : SchedPolicy) :
    (p.code = fixedShare.code ∨ p.code = elastic.code) ↔ p ≠ .bestEffort := by
  cases p <;> decide

def VnpuConfig.info (c : VnpuConfig) (g : NpuInfo) : NpuInfo :=
  { pnpuId := UInt32.ofInt c.phyNpuId
    vnpuId := UInt8.ofInt c.vnpuId
    vnpuPriority := UInt8.ofInt c.vnpuPriority.code
    memRequestQuota := c.memoryRequest * rtMbToB
    memLimitQuota := c.memoryLimit * rtMbToB
    coreLimitQuota :=
      if decide (c.schedulingPolicy ≠ .bestEffort) = true then UInt8.ofInt c.aicoreQuota.toInt
      else g.coreLimitQuota
    isCoreLimit := decide (c.schedulingPolicy ≠ .bestEffort)
    schedPolicy := c.schedulingPolicy.code
    shmId := c.shmId }

namespace VnpuConfig.Bounded

variable {c : VnpuConfig}

theorem memoryQuotas_loaded (h : c.Bounded) :
    memoryQuotas c.loaded = (c.memoryRequest, c.memoryLimit) := by
  have hpos := h.request_pos
  have hset : ¬ (c.loaded.memoryRequest = 0 ∧ c.loaded.memoryLimit = 0) := by
    rintro ⟨hzero, -⟩
    have : c.memoryRequest.toNat = 0 := congrArg UInt64.toNat hzero
    omega
  unfold memoryQuotas
  rw [if_neg hset]
  rfl

/-- The compute settings pass: a vNPU of a limited policy has normal priority, so its quota is
positive, and no other policy than best-effort is left. -/
theorem compute_loaded (h : c.Bounded) : (decide (c.schedulingPolicy ≠ .bestEffort) &&
      decide (c.loaded.aicoreQuota < 1 ∨ 100 < c.loaded.aicoreQuota)) = false ∧
    (!decide (c.schedulingPolicy ≠ .bestEffort) &&
      decide (c.loaded.schedulingPolicy ≠ bestEffort.code)) = false := by
  constructor
  · rcases h.compute with ⟨-, hpos, hle⟩ | ⟨-, -, hbest⟩
    · have hin : ¬ (c.loaded.aicoreQuota < 1 ∨ 100 < c.loaded.aicoreQuota) := by
        simp only [loaded]
        omega
      simp [hin]
    · simp [hbest]
  · by_cases hbest : c.schedulingPolicy = .bestEffort
    · simp [loaded, hbest]
    · simp [hbest]

/-- `enpu_config_info_init` accepts what was loaded. -/
theorem enpuConfigInfoInit_loaded (h : c.Bounded) (g : NpuInfo) :
    enpuConfigInfoInit c.loaded g = (true, c.info g) := by
  have hphy := h.phyNpuId
  have hvnpu := h.vnpuId
  have hlen := h.shmId.length_le
  have hpos := h.request_pos
  have hle := h.request_le
  have hlt := h.limit_lt
  have hnode : (maxNpuPerNode : Int) = 16 := rfl
  have hphy' : ¬ (c.loaded.phyNpuId < 0 ∨ 15 < c.loaded.phyNpuId) := by
    simp only [loaded]
    omega
  have hvnpu' : ¬ (c.loaded.vnpuId < 0 ∨ 99 < c.loaded.vnpuId) := by
    simp only [loaded]
    omega
  have hrequest := (quota_in_range hpos (by omega)).1
  have hlimit := (quota_in_range (x := c.memoryLimit) (by omega) hlt).1
  have hshm : ¬ rtShmIdLen ≤ c.loaded.shmId.length := by
    have : rtShmIdLen = 128 := rfl
    have : c.shmId.toList.length = c.shmId.length := String.length_toList
    simp only [loaded]
    omega
  have hlimited : decide (c.loaded.schedulingPolicy = fixedShare.code ∨
      c.loaded.schedulingPolicy = elastic.code) =
        decide (c.schedulingPolicy ≠ .bestEffort) :=
    decide_eq_decide.mpr c.schedulingPolicy.limited_iff
  unfold enpuConfigInfoInit
  simp only [h.memoryQuotas_loaded, if_neg hphy', if_neg hvnpu', if_neg hrequest, if_neg hlimit,
    hlimited, h.compute_loaded.1, h.compute_loaded.2, Bool.false_eq_true, if_false, if_neg hshm]
  rfl

/-- No conversion to a narrower field loses anything. -/
theorem takenOver_info (h : c.Bounded) (g : NpuInfo) : TakenOver c (c.info g) := by
  have hphy := h.phyNpuId
  have hvnpu := h.vnpuId
  have hquota := h.aicore_range
  have hpriority := c.vnpuPriority.code_range
  have hpos := h.request_pos
  have hle := h.request_le
  have hlt := h.limit_lt
  have hnode : (maxNpuPerNode : Int) = 16 := rfl
  have hvnpu8 : ((UInt8.ofInt (c.vnpuId : Int)).toNat : Int) = c.vnpuId :=
    toNat_ofInt8 (by omega) (by omega)
  have hpriority8 := toNat_ofInt8 hpriority.1 (by omega)
  have hquota8 := toNat_ofInt8 hquota.1 (by omega)
  exact
    { pnpuId := toNat_ofInt32 hphy.1 (by omega)
      vnpuId := Int.ofNat.inj hvnpu8
      vnpuPriority := hpriority8
      memRequestQuota := (quota_in_range hpos (by omega)).2
      memLimitQuota := (quota_in_range (by omega) hlt).2
      schedPolicy := rfl
      isCoreLimit := rfl
      coreLimitQuota := by
        intro hne
        simp only [info, hne, ne_eq, not_false_eq_true, decide_true, if_true]
        exact hquota8
      shmId := rfl }

end VnpuConfig.Bounded

end UbsVirt.Enpu
