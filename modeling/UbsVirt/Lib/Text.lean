import Mathlib.Data.Int.NatAbs
import Mathlib.Data.List.TakeWhile

/-!
# Text read by lines, and decimal numerals

A text file is read through a buffer of bounded size, line by line, and the integers in it
are read by the C library's `strtol` and `strtoull`. The laws say that both undo writing:
lines that fit the buffer arrive one by one, and the decimal digits of a number in range
are read as that number, with nothing left over.
-/

namespace UbsVirt.Text

open List

/-! ### Lines -/

/-- `fgets` into a buffer with room for `n` characters and the terminator: the characters up
to and including the next newline, but at most `n`, and the rest of the text. -/
def fgets : Nat → List Char → List Char × List Char
  | 0, text => ([], text)
  | _ + 1, [] => ([], [])
  | n + 1, c :: text =>
    if c = '\n' then ([c], text) else (c :: (fgets n text).1, (fgets n text).2)

theorem fgets_rest_length_le (n : Nat) (text : List Char) :
    (fgets n text).2.length ≤ text.length := by
  induction n generalizing text with
  | zero => exact Nat.le_refl _
  | succ n ih =>
    cases text with
    | nil => exact Nat.le_refl _
    | cons c text =>
      simp only [fgets]
      split
      · exact Nat.le_succ _
      · exact Nat.le_succ_of_le (ih text)

variable {n : Nat}

theorem fgets_rest_length_lt {text : List Char} (hn : n ≠ 0) (htext : text ≠ []) :
    (fgets n text).2.length < text.length := by
  obtain ⟨n, rfl⟩ := Nat.exists_eq_succ_of_ne_zero hn
  obtain ⟨c, text, rfl⟩ := exists_cons_of_ne_nil htext
  simp only [fgets]
  split
  · exact Nat.lt_succ_self _
  · exact Nat.lt_succ_of_le (fgets_rest_length_le n text)

/-- A line that fits the buffer is read whole. -/
theorem fgets_line {line : List Char} (hnl : '\n' ∉ line) (hn : line.length < n)
    (rest : List Char) : fgets n (line ++ '\n' :: rest) = (line ++ ['\n'], rest) := by
  induction line generalizing n with
  | nil =>
    obtain ⟨n, rfl⟩ := Nat.exists_eq_succ_of_ne_zero (Nat.ne_of_gt hn)
    simp [fgets]
  | cons c line ih =>
    obtain ⟨n, rfl⟩ := Nat.exists_eq_succ_of_ne_zero (Nat.ne_of_gt (Nat.zero_lt_of_lt hn))
    have hc : c ≠ '\n' := fun h => hnl (h ▸ mem_cons_self)
    have hrest : fgets n (line ++ '\n' :: rest) = (line ++ ['\n'], rest) :=
      ih (fun h => hnl (mem_cons_of_mem c h)) (Nat.lt_of_succ_lt_succ hn)
    simp only [cons_append, fgets, if_neg hc, hrest]

variable {σ : Type*}

/-- The loop `while (fgets(..) != NULL)`: the state is passed through one call of `f` for
every read. -/
def foldLines (n : Nat) (f : σ → List Char → σ) (acc : σ) (text : List Char) : σ :=
  if _h : n = 0 ∨ text = [] then acc
  else foldLines n f (f acc (fgets n text).1) (fgets n text).2
termination_by text.length
decreasing_by exact fgets_rest_length_lt (fun hn => _h (.inl hn)) (fun ht => _h (.inr ht))

/-- Reading a text of lines that fit the buffer calls the body once for every line. -/
theorem foldLines_lines {f : σ → List Char → σ} {lines : List (List Char)}
    (hlines : ∀ line ∈ lines, '\n' ∉ line ∧ line.length < n) (acc : σ) :
    foldLines n f acc (lines.flatMap (· ++ ['\n'])) =
      lines.foldl (fun acc line => f acc (line ++ ['\n'])) acc := by
  induction lines generalizing acc with
  | nil =>
    rw [foldLines]
    simp
  | cons line lines ih =>
    obtain ⟨hnl, hlen⟩ := hlines line mem_cons_self
    have hn : n ≠ 0 := Nat.ne_of_gt (Nat.zero_lt_of_lt hlen)
    have htext : (line :: lines).flatMap (· ++ ['\n']) =
        line ++ '\n' :: lines.flatMap (· ++ ['\n']) := by
      simp
    rw [htext, foldLines, fgets_line hnl hlen, dif_neg (by simp [hn])]
    exact ih (fun l hl => hlines l (mem_cons_of_mem line hl)) _

/-! ### Numerals -/

/-- `isspace` in the C locale. -/
def isSpace (c : Char) : Bool :=
  c == ' ' || (decide ('\t' ≤ c) && decide (c ≤ '\r'))

/-- A numeral at the start of a text: its sign, its decimal digits and what follows. -/
structure Numeral where
  negative : Bool
  digits : List Char
  rest : List Char
  deriving DecidableEq, Repr

/-- The numeral `strtol` finds in base ten: blanks are skipped and one sign is taken. -/
def scanNumeral (text : List Char) : Numeral :=
  match text.dropWhile isSpace with
  | '-' :: s => ⟨true, s.takeWhile Char.isDigit, s.dropWhile Char.isDigit⟩
  | '+' :: s => ⟨false, s.takeWhile Char.isDigit, s.dropWhile Char.isDigit⟩
  | s => ⟨false, s.takeWhile Char.isDigit, s.dropWhile Char.isDigit⟩

/-- What `strtol` and `strtoull` report: the value, whether `errno` was set to `ERANGE`, and
the text at `endptr`, or nothing when there was no numeral. -/
structure Strto (α : Type*) where
  value : α
  erange : Bool
  rest : Option (List Char)
  deriving DecidableEq, Repr

/-- `strtol` in base ten, with a `long` of 64 bits. -/
def strtol (text : List Char) : Strto Int :=
  let num := scanNumeral text
  let magnitude : Int := Nat.ofDigitChars 10 num.digits 0
  let value := if num.negative then -magnitude else magnitude
  if num.digits = [] then ⟨0, false, none⟩
  else if value < -2 ^ 63 then ⟨-2 ^ 63, true, some num.rest⟩
  else if 2 ^ 63 ≤ value then ⟨2 ^ 63 - 1, true, some num.rest⟩
  else ⟨value, false, some num.rest⟩

/-- `strtoull` in base ten. A minus sign negates the value in 64-bit arithmetic. -/
def strtoull (text : List Char) : Strto UInt64 :=
  let num := scanNumeral text
  let magnitude := Nat.ofDigitChars 10 num.digits 0
  if num.digits = [] then ⟨0, false, none⟩
  else if 2 ^ 64 ≤ magnitude then ⟨UInt64.ofNat (2 ^ 64 - 1), true, some num.rest⟩
  else
    let value := UInt64.ofNat magnitude
    ⟨if num.negative then -value else value, false, some num.rest⟩

theorem isDigit_of_mem_decimal {c : Char} (h : c ∈ Nat.toDigits 10 n) : c.isDigit = true :=
  Nat.isDigit_of_mem_toDigits (by omega) (by omega) h

theorem isSpace_of_isDigit {c : Char} (h : c.isDigit = true) : isSpace c = false := by
  have hc := Char.isDigit_iff_toNat.mp h
  have h0 : ('0' : Char).toNat = 48 := rfl
  have hspace : c ≠ ' ' := by
    rintro rfl
    exact absurd h (by decide)
  have hcr : ¬ c ≤ '\r' := by
    intro hle
    have : c.toNat ≤ ('\r' : Char).toNat := hle
    have hr : ('\r' : Char).toNat = 13 := rfl
    omega
  simp [isSpace, hspace, hcr]

/-- The digits of a number are found as they are. -/
theorem scanNumeral_decimal (n : Nat) :
    scanNumeral (Nat.toDigits 10 n) = ⟨false, Nat.toDigits 10 n, []⟩ := by
  have hdigit : ∀ c ∈ Nat.toDigits 10 n, c.isDigit = true := fun c => isDigit_of_mem_decimal
  have htake := takeWhile_eq_self_iff.mpr hdigit
  have hdrop := dropWhile_eq_nil_iff.mpr hdigit
  obtain ⟨c, cs, hcs⟩ := exists_cons_of_ne_nil (Nat.toDigits_ne_nil (n := n) (b := 10))
  have hc : c.isDigit = true := hdigit c (hcs ▸ mem_cons_self)
  have hskip : (Nat.toDigits 10 n).dropWhile isSpace = Nat.toDigits 10 n := by
    rw [hcs, dropWhile_cons_of_neg (by simp [isSpace_of_isDigit hc])]
  unfold scanNumeral
  rw [hskip]
  split
  · next s hs => exact absurd hc (by rw [(cons.inj (hcs.symm.trans hs)).1]; decide)
  · next s hs => exact absurd hc (by rw [(cons.inj (hcs.symm.trans hs)).1]; decide)
  · rw [htake, hdrop]

/-- A number in the range of `long` is read back from its digits. -/
theorem strtol_decimal (hn : n < 2 ^ 63) : strtol (Nat.toDigits 10 n) = ⟨n, false, some []⟩ := by
  have hlow : ¬ (n : Int) < -2 ^ 63 := by omega
  have hhigh : ¬ (2 : Int) ^ 63 ≤ n := by omega
  unfold strtol
  simp only [scanNumeral_decimal, Nat.ofDigitChars_ten_toDigits, Nat.toDigits_ne_nil, if_false,
    Bool.false_eq_true, hlow, hhigh]

/-- A number of 64 bits is read back from its digits. -/
theorem strtoull_decimal (n : UInt64) :
    strtoull (Nat.toDigits 10 n.toNat) = ⟨n, false, some []⟩ := by
  have hn : ¬ 2 ^ 64 ≤ n.toNat := by
    have := n.toNat_lt
    omega
  unfold strtoull
  simp only [scanNumeral_decimal, Nat.ofDigitChars_ten_toDigits, Nat.toDigits_ne_nil, if_false,
    Bool.false_eq_true, hn, UInt64.ofNat_toNat]

end UbsVirt.Text
