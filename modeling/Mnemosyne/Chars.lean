import Mathlib.Data.List.Basic

namespace Mnemosyne

/-! # Characters

`core/src/chars.rs`, and the character classes of Rust's standard library
that the parser's `letter()`, `alpha_num()` and `space()` consult.
-/

namespace Chars

def lambda : List Char := ['λ']

def arrow : List Char := ['→']

def fatArrow : List Char := ['⇒']

def alphaExt : List Char := "+-*/<=>!:%^".toList

def alphaExtSubsequent : List Char := "_+-*/<=>!:%^'".toList

def ops : List Char := "+-*/|=<>$".toList

/-- `char::is_whitespace`: the Unicode `White_Space` property, a fixed set of
twenty-five code points. -/
def isWhitespace (c : Char) : Bool :=
  let n := c.toNat
  (9 ≤ n && n ≤ 13) || n == 32 || n == 0x85 || n == 0xA0 || n == 0x1680 ||
    (0x2000 ≤ n && n ≤ 0x200A) || n == 0x2028 || n == 0x2029 || n == 0x202F || n == 0x205F ||
    n == 0x3000

/-- An ASCII letter is an ASCII character. -/
theorem toNat_lt_of_isAlpha {c : Char} (alpha : c.isAlpha = true) : c.toNat < 128 := by
  change (decide (c.val ≥ 'A'.val ∧ c.val ≤ 'Z'.val) ||
    (decide (c.val ≥ 'a'.val) && decide (c.val ≤ 'z'.val))) = true at alpha
  simp only [Bool.or_eq_true, Bool.and_eq_true, decide_eq_true_eq] at alpha
  have code : c.toNat = c.val.toNat := rfl
  rcases alpha with ⟨-, upper⟩ | ⟨-, lower⟩
  · have : c.val.toNat ≤ 90 := UInt32.le_iff_toNat_le.mp upper
    omega
  · have : c.val.toNat ≤ 122 := UInt32.le_iff_toNat_le.mp lower
    omega

theorem toNat_lt_of_isDigit {c : Char} (digit : c.isDigit = true) : c.toNat < 128 := by
  have bounds := Char.isDigit_iff_toNat.mp digit
  have nine : '9'.toNat = 57 := rfl
  omega

end Chars

/-- The Unicode tables behind `char::is_alphabetic` and `char::is_numeric`.
They are too large to embed; the fields record what the standard library
documents of them and what the proofs rely on: on ASCII they are the usual
classes, and no white space character is a letter or a digit. -/
structure CharTables where
  isAlphabetic : Char → Bool
  isNumeric : Char → Bool
  ascii_alphabetic : ∀ c : Char, c.toNat < 128 → (isAlphabetic c = c.isAlpha)
  ascii_numeric : ∀ c : Char, c.toNat < 128 → (isNumeric c = c.isDigit)
  whitespace_not_alphabetic : ∀ c : Char, Chars.isWhitespace c = true → isAlphabetic c = false
  whitespace_not_numeric : ∀ c : Char, Chars.isWhitespace c = true → isNumeric c = false

namespace CharTables

/-- `char::is_alphanumeric`. -/
def isAlphanumeric (tables : CharTables) (c : Char) : Bool :=
  tables.isAlphabetic c || tables.isNumeric c

/-- The tables cut down to ASCII, where every table agrees: no other
character is in either class.  Concrete runs of the parser use it. -/
def ascii : CharTables where
  isAlphabetic := Char.isAlpha
  isNumeric := Char.isDigit
  ascii_alphabetic _ _ := rfl
  ascii_numeric _ _ := rfl
  whitespace_not_alphabetic c blank := by
    show c.isAlpha = false
    cases alpha : c.isAlpha with
    | false => rfl
    | true =>
        have letters : ∀ n, n < 128 → Chars.isWhitespace (Char.ofNat n) = true →
            (Char.ofNat n).isAlpha = false := by decide
        have refused := letters c.toNat (Chars.toNat_lt_of_isAlpha alpha)
          (by rwa [Char.ofNat_toNat])
        rwa [Char.ofNat_toNat, alpha] at refused
  whitespace_not_numeric c blank := by
    show c.isDigit = false
    cases digit : c.isDigit with
    | false => rfl
    | true =>
        have digits : ∀ n, n < 128 → Chars.isWhitespace (Char.ofNat n) = true →
            (Char.ofNat n).isDigit = false := by decide
        have refused := digits c.toNat (Chars.toNat_lt_of_isDigit digit)
          (by rwa [Char.ofNat_toNat])
        rwa [Char.ofNat_toNat, digit] at refused

end CharTables

end Mnemosyne
