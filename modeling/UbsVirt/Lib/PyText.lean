import Mathlib.Data.List.DropRight

/-!
# Texts as Python treats them

Blanks at the ends of a text, the words of a text, and decimal numerals. A numeral is what the
pattern `[0-9]+` matches whole; `int` reads it in base ten, up to the number of digits that the
interpreter converts.
-/

namespace UbsVirt.PyText

def isSpace (c : Char) : Bool :=
  let n := c.toNat
  (0x09 ≤ n && n ≤ 0x0D) || (0x1C ≤ n && n ≤ 0x20) || n == 0x85 || n == 0xA0 || n == 0x1680 ||
    (0x2000 ≤ n && n ≤ 0x200A) || n == 0x2028 || n == 0x2029 || n == 0x202F || n == 0x205F ||
    n == 0x3000

def strip (text : List Char) : List Char :=
  (text.dropWhile isSpace).rdropWhile isSpace

/-! ### Numerals -/

/-- `re.fullmatch(r"[0-9]+", text)`. -/
def isNumeral (text : List Char) : Bool :=
  !text.isEmpty && text.all Char.isDigit

/-- The most digits that `int` converts. -/
def maxStrDigits : Nat := 4300

/-- `int` of a numeral. -/
def int? (digits : List Char) : Option Nat :=
  if digits.length ≤ maxStrDigits then some (Nat.ofDigitChars 10 digits 0) else none

/-- The text is a numeral for `n`, perhaps with zeros in front. -/
def Numeral (text : List Char) (n : Nat) : Prop :=
  isNumeral text = true ∧ Nat.ofDigitChars 10 text 0 = n

variable {text : List Char}

theorem Numeral.unique {m n : Nat} (hm : Numeral text m) (hn : Numeral text n) : m = n :=
  hm.2.symm.trans hn.2

theorem Numeral.of_int? {n : Nat} (hnum : isNumeral text = true)
    (hint : int? text = some n) : Numeral text n := by
  unfold int? at hint
  split at hint
  · exact ⟨hnum, Option.some.inj hint⟩
  · cases hint

theorem isNumeral_iff : isNumeral text = true ↔ text ≠ [] ∧ ∀ c ∈ text, c.isDigit = true := by
  simp [isNumeral]

/-- A numeral is all that is taken of a text in which something else follows it. -/
theorem takeWhile_numeral {digits rest : List Char} (hdigits : isNumeral digits = true)
    (hrest : ∀ c ∈ rest.head?, c.isDigit = false) :
    (digits ++ rest).takeWhile Char.isDigit = digits ∧
      (digits ++ rest).dropWhile Char.isDigit = rest := by
  have hall := (isNumeral_iff.mp hdigits).2
  rw [List.takeWhile_append_of_pos hall, List.dropWhile_append_of_pos hall]
  cases rest with
  | nil => simp
  | cons c rest =>
    have hc : c.isDigit = false := hrest c rfl
    simp [hc]

end UbsVirt.PyText
