import Mathlib.Data.List.TakeWhile
import Mnemosyne.Combine.Language
import Mnemosyne.Chars

/-! # The language definition of `parse_module`

The `LanguageDef` that `parse_module` in `parser/src/lib.rs` hands to
`LanguageEnv::new`: identifiers start with a letter or one of
`Chars.alphaExt` and continue with letters, digits or
`Chars.alphaExtSubsequent`; operators are runs of `Chars.ops`; a comment
starts with `#`.  Block comments open with `#|`, but the line comment is
tried first and `#` begins both, so every block comment is read as a line
comment.

The lemmas say what the lexemes read on text shaped as the printer writes
it: a lexeme followed by text that cannot continue it (`Continues`) is read
whole, and the blanks after it are skipped (`trim`).
-/

namespace Mnemosyne.Parser

open Combine Combine.Parser

/-- The reserved words; a number of these have no meaning yet. -/
def reservedWords : List (List Char) :=
  ["and", "begin", "case", "cond", "class", "data", "define", "defn", "def", "delay", "fn", "do",
    "else", "if", "lambda"].map String.toList ++ [Chars.lambda] ++
  ["let", "let*", "letrec", "or", "quasiquote", "quote", "unquote", "set!", "unquote-splicing",
    "struct", "union", "i8", "u8", "i16", "u16", "i32", "u32", "f32", "i64", "u64", "f64", "int",
    "uint", "float", "bool", "string", "double", "ref", "move", "borrow", "trait", "typeclass",
    "instance", "impl"].map String.toList

def reservedOps : List (List Char) :=
  ["=>", "->", "\\", "|", "_", "$"].map String.toList ++ [Chars.arrow, Chars.fatArrow]

section Definition

variable (tables : CharTables)

/-- `letter()`: `char::is_alphabetic`. -/
def letter : Parser Char :=
  satisfy tables.isAlphabetic

/-- `alpha_num()`: `char::is_alphanumeric`. -/
def alphaNum : Parser Char :=
  satisfy tables.isAlphanumeric

/-- The environment `parse_module` builds; `space()` is `char::is_whitespace`. -/
def language : LanguageEnv where
  ident := ⟨(letter tables).or (satisfy Chars.alphaExt.contains),
    (alphaNum tables).or (satisfy Chars.alphaExtSubsequent.contains), reservedWords⟩
  op := ⟨satisfy Chars.ops.contains, satisfy Chars.ops.contains, reservedOps⟩
  commentLine := (string ['#']).map fun _ => ()
  commentStart := (string ['#', '|']).map fun _ => ()
  commentEnd := (string ['|', '#']).map fun _ => ()
  isSpace := Chars.isWhitespace

/-- The characters `ident.start` accepts. -/
def isIdentStart (c : Char) : Bool :=
  tables.isAlphabetic c || Chars.alphaExt.contains c

/-- The characters `ident.rest` accepts. -/
def isIdentRest (c : Char) : Bool :=
  tables.isAlphanumeric c || Chars.alphaExtSubsequent.contains c

/-- A name that `identifier` reads back whole. -/
def validIdent : List Char → Bool
  | [] => false
  | c :: cs =>
      isIdentStart tables c && cs.all (isIdentRest tables) && !reservedWords.contains (c :: cs)

end Definition

/-- The input once the blanks in front of it are read. -/
def trim (text : List Char) : List Char :=
  text.dropWhile Chars.isWhitespace

/-- Text that may follow a lexeme: its first character cannot continue an
identifier, and once the blanks are read no comment begins. -/
structure Continues (tables : CharTables) (z : List Char) : Prop where
  boundary : ∀ c cs, z = c :: cs → isIdentRest tables c = false
  noComment : ∀ cs, trim z ≠ '#' :: cs

variable {tables : CharTables}

theorem language_lawful (tables : CharTables) : (language tables).Lawful where
  identStartGrows := (satisfy_nonGrowing _).or (satisfy_nonGrowing _)
  identStartProgresses := (satisfy_progresses _).or (satisfy_progresses _)
  identRestGrows := (satisfy_nonGrowing _).or (satisfy_nonGrowing _)
  identRestProgresses := (satisfy_progresses _).or (satisfy_progresses _)
  commentLineGrows := (string_nonGrowing _).map _
  commentLineProgresses := (string_progresses (List.cons_ne_nil _ _)).map _
  commentStartGrows := (string_nonGrowing _).map _
  commentStartProgresses := (string_progresses (List.cons_ne_nil _ _)).map _
  commentEndGrows := (string_nonGrowing _).map _

section Classes

theorem isIdentStart_of_ascii {c : Char} (ascii : c.toNat < 128) :
    isIdentStart tables c = (c.isAlpha || Chars.alphaExt.contains c) := by
  simp [isIdentStart, tables.ascii_alphabetic c ascii]

theorem isIdentRest_of_ascii {c : Char} (ascii : c.toNat < 128) :
    isIdentRest tables c = (c.isAlpha || c.isDigit || Chars.alphaExtSubsequent.contains c) := by
  simp [isIdentRest, CharTables.isAlphanumeric, tables.ascii_alphabetic c ascii,
    tables.ascii_numeric c ascii]

theorem isIdentStart_of_isAlpha {c : Char} (alpha : c.isAlpha = true) :
    isIdentStart tables c = true := by
  simp [isIdentStart_of_ascii (Chars.toNat_lt_of_isAlpha alpha), alpha]

theorem isIdentRest_of_isAlpha {c : Char} (alpha : c.isAlpha = true) :
    isIdentRest tables c = true := by
  simp [isIdentRest_of_ascii (Chars.toNat_lt_of_isAlpha alpha), alpha]

theorem isIdentRest_of_isDigit {c : Char} (digit : c.isDigit = true) :
    isIdentRest tables c = true := by
  simp [isIdentRest_of_ascii (Chars.toNat_lt_of_isDigit digit), digit]

/-- Neither extension list holds a blank. -/
theorem not_whitespace_of_mem_alphaExtSubsequent {c : Char}
    (member : c ∈ Chars.alphaExtSubsequent) : Chars.isWhitespace c = false := by
  have listed : Chars.alphaExtSubsequent.all (fun d => !Chars.isWhitespace d) = true := by decide
  simpa using List.all_eq_true.mp listed c member

theorem isIdentRest_not_whitespace {c : Char} (rest : isIdentRest tables c = true) :
    Chars.isWhitespace c = false := by
  cases blank : Chars.isWhitespace c with
  | false => rfl
  | true =>
      have notAlpha := tables.whitespace_not_alphabetic c blank
      have notNumeric := tables.whitespace_not_numeric c blank
      simp only [isIdentRest, CharTables.isAlphanumeric, notAlpha, notNumeric, Bool.false_or,
        List.contains_iff_mem] at rest
      rw [not_whitespace_of_mem_alphaExtSubsequent rest] at blank
      exact blank.symm

theorem isIdentRest_of_isIdentStart {c : Char} (start : isIdentStart tables c = true) :
    isIdentRest tables c = true := by
  have extended : Chars.alphaExt.all (Chars.alphaExtSubsequent.contains ·) = true := by decide
  simp only [isIdentStart, Bool.or_eq_true, List.contains_iff_mem] at start
  rcases start with alpha | member
  · simp [isIdentRest, CharTables.isAlphanumeric, alpha]
  · have listed : Chars.alphaExtSubsequent.contains c = true := List.all_eq_true.mp extended c member
    simp only [isIdentRest, listed, Bool.or_true]

theorem isIdentStart_not_whitespace {c : Char} (start : isIdentStart tables c = true) :
    Chars.isWhitespace c = false :=
  isIdentRest_not_whitespace (isIdentRest_of_isIdentStart start)

/-- A digit never starts an identifier, so a name and a number never share
their first character. -/
theorem isIdentStart_not_digit {c : Char} (start : isIdentStart tables c = true) :
    c.isDigit = false := by
  cases digit : c.isDigit with
  | false => rfl
  | true =>
      have ascii := Chars.toNat_lt_of_isDigit digit
      have digits : ∀ n, n < 128 → (Char.ofNat n).isDigit = true →
          ((Char.ofNat n).isAlpha || Chars.alphaExt.contains (Char.ofNat n)) = false := by decide
      have refused := digits c.toNat ascii (by rwa [Char.ofNat_toNat])
      rw [Char.ofNat_toNat, ← isIdentStart_of_ascii ascii, start] at refused
      exact refused

end Classes

section Blanks

@[simp] theorem trim_nil : trim [] = [] := rfl

theorem trim_cons_of_blank {c : Char} {text : List Char} (blank : Chars.isWhitespace c = true) :
    trim (c :: text) = trim text :=
  List.dropWhile_cons_of_pos blank

theorem trim_cons_of_not_blank {c : Char} {text : List Char}
    (notBlank : Chars.isWhitespace c = false) : trim (c :: text) = c :: text :=
  List.dropWhile_cons_of_neg (by simp [notBlank])

theorem trim_append_of_blank {blanks text : List Char}
    (blank : ∀ c ∈ blanks, Chars.isWhitespace c = true) : trim (blanks ++ text) = trim text :=
  List.dropWhile_append_of_pos blank

/-- The white space parser reads exactly the blanks in front of its input,
provided no comment follows them. -/
theorem whiteSpace_trim {text : List Char} (noComment : ∀ cs, trim text ≠ '#' :: cs) :
    (language tables).whiteSpace.Yields text (fun _ => True)
      (!(text.takeWhile Chars.isWhitespace).isEmpty) (trim text) := by
  have whole : text.takeWhile Chars.isWhitespace ++ trim text = text :=
    List.takeWhile_append_dropWhile
  have spaces : ∀ c ∈ text.takeWhile Chars.isWhitespace, Chars.isWhitespace c = true :=
    fun c member => List.mem_takeWhile_imp member
  have stops : ∀ c cs, trim text = c :: cs → Chars.isWhitespace c = false := by
    intro c cs remaining
    have dropped : text.dropWhile Chars.isWhitespace = c :: cs := remaining
    have notBlank := List.head_dropWhile_not Chars.isWhitespace
      (by rw [dropped]; exact List.cons_ne_nil c cs)
    simpa [dropped] using notBlank
  have notHash : ∀ d ds, trim text = d :: ds → d ≠ '#' := by
    rintro d ds remaining rfl
    exact noComment ds remaining
  have noLine : (language tables).commentLine.Fails (trim text) false :=
    (string_fails_of_head notHash).map _
  have noBlock : (language tables).commentStart.Fails (trim text) false :=
    (string_fails_of_head notHash).map _
  have read := @LanguageEnv.whiteSpace_yields (language tables) (trim text) (language_lawful tables)
    _ _ _ spaces stops noLine noBlock
  rwa [whole] at read

end Blanks

section Lexemes

variable {α : Type} {rest : List Char}

theorem identStart_yields {c : Char} (start : isIdentStart tables c = true) (r : List Char) :
    (language tables).ident.start.Yields (c :: r) (· = c) true r := by
  cases alpha : tables.isAlphabetic c with
  | true => exact (satisfy_yields alpha r).or_left _
  | false =>
      have extended : Chars.alphaExt.contains c = true := by
        simpa [isIdentStart, alpha] using start
      exact Yields.or_right (satisfy_fails fun _ _ same => by cases same; exact alpha)
        (satisfy_yields extended r)

theorem identStart_fails {input : List Char}
    (refused : ∀ c cs, input = c :: cs → isIdentStart tables c = false) :
    (language tables).ident.start.Fails input false := by
  have letterFails : (letter tables).Fails input false := satisfy_fails fun c cs head => by
    have := refused c cs head
    simp only [isIdentStart, Bool.or_eq_false_iff] at this
    exact this.1
  exact letterFails.or (satisfy_fails fun c cs head => by
    have := refused c cs head
    simp only [isIdentStart, Bool.or_eq_false_iff] at this
    exact this.2)

theorem identRest_yields {c : Char} (continues : isIdentRest tables c = true) (r : List Char) :
    (language tables).ident.rest.Yields (c :: r) (· = c) true r := by
  cases alphaNumeric : tables.isAlphanumeric c with
  | true => exact (satisfy_yields alphaNumeric r).or_left _
  | false =>
      have extended : Chars.alphaExtSubsequent.contains c = true := by
        simpa [isIdentRest, alphaNumeric] using continues
      exact Yields.or_right (satisfy_fails fun _ _ same => by cases same; exact alphaNumeric)
        (satisfy_yields extended r)

theorem identRest_fails {input : List Char}
    (refused : ∀ c cs, input = c :: cs → isIdentRest tables c = false) :
    (language tables).ident.rest.Fails input false := by
  have alphaNumFails : (alphaNum tables).Fails input false := satisfy_fails fun c cs head => by
    have := refused c cs head
    simp only [isIdentRest, Bool.or_eq_false_iff] at this
    exact this.1
  exact alphaNumFails.or (satisfy_fails fun c cs head => by
    have := refused c cs head
    simp only [isIdentRest, Bool.or_eq_false_iff] at this
    exact this.2)

/-- A valid name followed by text that cannot continue it is read whole. -/
theorem identifier_yields_name {name : List Char} (valid : validIdent tables name = true)
    (follows : Continues tables rest) :
    (language tables).identifier.Yields (name ++ rest) (· = name) true (trim rest) := by
  cases name with
  | nil => cases valid
  | cons c cs =>
      simp only [validIdent, Bool.and_eq_true, List.all_eq_true, Bool.not_eq_true'] at valid
      obtain ⟨⟨start, continues⟩, unlisted⟩ := valid
      have notReserved : c :: cs ∉ reservedWords := by simpa using unlisted
      exact LanguageEnv.identifier_yields (language_lawful tables) (identStart_yields start _)
        (fun d member r => identRest_yields (continues d member) r)
        (identRest_fails follows.boundary) notReserved (whiteSpace_trim follows.noComment)

/-- `identifier` reads a reserved word in full and refuses it without
consuming. -/
theorem identifier_fails_of_reserved_word {c : Char} {cs : List Char}
    (isReserved : c :: cs ∈ reservedWords) (start : isIdentStart tables c = true)
    (continues : ∀ d ∈ cs, isIdentRest tables d = true)
    (ends : ∀ d ds, rest = d :: ds → isIdentRest tables d = false) :
    (language tables).identifier.Fails (c :: cs ++ rest) false :=
  LanguageEnv.identifier_fails_of_reserved (language_lawful tables) (identStart_yields start _)
    (fun d member r => identRest_yields (continues d member) r) (identRest_fails ends) isReserved

/-- The same for a reserved word of ASCII letters. -/
theorem identifier_fails_of_reserved {word : List Char} (isReserved : word ∈ reservedWords)
    (letters : word.all Char.isAlpha = true)
    (ends : ∀ c cs, rest = c :: cs → isIdentRest tables c = false) :
    (language tables).identifier.Fails (word ++ rest) false := by
  cases word with
  | nil => exact absurd isReserved (by decide)
  | cons c cs =>
      have alpha := List.all_eq_true.mp letters
      exact identifier_fails_of_reserved_word isReserved (isIdentStart_of_isAlpha (alpha c (by simp)))
        (fun d member => isIdentRest_of_isAlpha (alpha d (by simp [member]))) ends

theorem reserved_yields {word : List Char} (nonempty : word ≠ []) (follows : Continues tables rest) :
    ((language tables).reserved word).Yields (word ++ rest) (fun _ => True) true (trim rest) :=
  LanguageEnv.reservedWith_yields nonempty (identRest_fails follows.boundary)
    (whiteSpace_trim follows.noComment)

theorem reserved_fails_of_unmatched {word input : List Char} (notPrefix : ¬word <+: input) :
    ((language tables).reserved word).Fails input false :=
  LanguageEnv.reservedWith_fails_of_unmatched notPrefix

/-- A reserved word followed by a character that continues an identifier is
the start of a longer name, not the word. -/
theorem reserved_fails_of_continues {word : List Char} {c : Char} (r : List Char)
    (continues : isIdentRest tables c = true) :
    ((language tables).reserved word).Fails (word ++ c :: r) false :=
  LanguageEnv.reservedWith_fails_of_continues (identRest_yields continues r)

theorem reservedOp_yields {word : List Char} (nonempty : word ≠ [])
    (ends : ∀ c cs, rest = c :: cs → Chars.ops.contains c = false)
    (noComment : ∀ cs, trim rest ≠ '#' :: cs) :
    ((language tables).reservedOp word).Yields (word ++ rest) (fun _ => True) true (trim rest) :=
  LanguageEnv.reservedWith_yields nonempty (satisfy_fails ends) (whiteSpace_trim noComment)

theorem reservedOp_fails_of_unmatched {word input : List Char} (notPrefix : ¬word <+: input) :
    ((language tables).reservedOp word).Fails input false :=
  LanguageEnv.reservedWith_fails_of_unmatched notPrefix

/-- Brackets around a body: the blanks after each bracket are read, and the
body ends at the closing bracket. -/
theorem parens_yields_trim {p : Parser α} {inner : List Char} {P : α → Prop} {consumed : Bool}
    (openNoComment : ∀ cs, trim inner ≠ '#' :: cs) (body : p.Yields (trim inner) P consumed (')' :: rest))
    (closeNoComment : ∀ cs, trim rest ≠ '#' :: cs) :
    ((language tables).parens p).Yields ('(' :: inner) P true (trim rest) :=
  LanguageEnv.parens_yields (whiteSpace_trim openNoComment) body (whiteSpace_trim closeNoComment)

theorem braces_yields_trim {p : Parser α} {inner : List Char} {P : α → Prop} {consumed : Bool}
    (openNoComment : ∀ cs, trim inner ≠ '#' :: cs) (body : p.Yields (trim inner) P consumed ('}' :: rest))
    (closeNoComment : ∀ cs, trim rest ≠ '#' :: cs) :
    ((language tables).braces p).Yields ('{' :: inner) P true (trim rest) :=
  LanguageEnv.braces_yields (whiteSpace_trim openNoComment) body (whiteSpace_trim closeNoComment)

/-- The decimal digits of a number read back as the number. -/
theorem integer_yields_decimal (n : Nat) (follows : Continues tables rest) :
    (language tables).integer.Yields (Nat.toDigits 10 n ++ rest) (· = Int64.ofNat n) true
      (trim rest) := by
  have ends : ∀ c cs, rest = c :: cs → c.isDigit = false := by
    intro c cs head
    cases digit : c.isDigit with
    | false => rfl
    | true =>
        have := follows.boundary c cs head
        rw [isIdentRest_of_isDigit digit] at this
        exact this
  have digits : ∀ d ∈ Nat.toDigits 10 n, d.isDigit = true := fun d member =>
    Nat.isDigit_of_mem_toDigits (by decide) (by decide) member
  have read : (language tables).integer.Yields (Nat.toDigits 10 n ++ rest)
      (· = LanguageEnv.digitsValue (Nat.toDigits 10 n)) true (trim rest) :=
    LanguageEnv.integer_yields Nat.toDigits_ne_nil digits ends (whiteSpace_trim follows.noComment)
  exact read.mono fun value same => by rw [same, LanguageEnv.digitsValue_toDigits]

end Lexemes

section Continuations

theorem continues_nil : Continues tables [] where
  boundary _ _ empty := by cases empty
  noComment _ empty := by cases empty

theorem continues_close (z : List Char) : Continues tables (')' :: z) := by
  have notBlank : Chars.isWhitespace ')' = false := by decide
  refine ⟨fun c cs head => ?_, fun cs => ?_⟩
  · cases head
    rw [isIdentRest_of_ascii (by decide)]
    decide
  · rw [trim_cons_of_not_blank notBlank]
    simp

theorem continues_closeBrace (z : List Char) : Continues tables ('}' :: z) := by
  have notBlank : Chars.isWhitespace '}' = false := by decide
  refine ⟨fun c cs head => ?_, fun cs => ?_⟩
  · cases head
    rw [isIdentRest_of_ascii (by decide)]
    decide
  · rw [trim_cons_of_not_blank notBlank]
    simp

theorem continues_open (z : List Char) : Continues tables ('(' :: z) := by
  have notBlank : Chars.isWhitespace '(' = false := by decide
  refine ⟨fun c cs head => ?_, fun cs => ?_⟩
  · cases head
    rw [isIdentRest_of_ascii (by decide)]
    decide
  · rw [trim_cons_of_not_blank notBlank]
    simp

/-- Blanks followed by text that starts no comment. -/
theorem continues_of_blank {c : Char} {z : List Char} (blank : Chars.isWhitespace c = true)
    (noComment : ∀ cs, trim z ≠ '#' :: cs) : Continues tables (c :: z) := by
  refine ⟨fun d ds head => ?_, fun cs => ?_⟩
  · cases head
    cases continues : isIdentRest tables c with
    | false => rfl
    | true =>
        rw [isIdentRest_not_whitespace continues] at blank
        exact blank.symm
  · rw [trim_cons_of_blank blank]
    exact noComment cs

/-- Text whose first character is neither a blank nor the start of a
comment: the blanks before it end where it begins. -/
def Solid (text : List Char) : Prop :=
  ∃ c cs, text = c :: cs ∧ Chars.isWhitespace c = false ∧ c ≠ '#'

theorem Solid.trim_append {text : List Char} (solid : Solid text) (u : List Char) :
    trim (text ++ u) = text ++ u := by
  obtain ⟨c, cs, rfl, notBlank, -⟩ := solid
  exact trim_cons_of_not_blank notBlank

theorem Solid.noComment {text : List Char} (solid : Solid text) (u : List Char) :
    ∀ cs, trim (text ++ u) ≠ '#' :: cs := by
  rw [solid.trim_append u]
  obtain ⟨c, cs, rfl, -, notHash⟩ := solid
  intro ds same
  cases same
  exact notHash rfl

theorem Solid.trim_self {text : List Char} (solid : Solid text) : trim text = text := by
  simpa using solid.trim_append []

theorem Solid.of_isIdentStart {c : Char} {cs : List Char} (start : isIdentStart tables c = true) :
    Solid (c :: cs) := by
  refine ⟨c, cs, rfl, isIdentStart_not_whitespace start, ?_⟩
  rintro rfl
  rw [isIdentStart_of_ascii (by decide)] at start
  exact absurd start (by decide)

/-- Before text that starts solid the white space parser reads nothing. -/
theorem whiteSpace_solid {text : List Char} (solid : Solid text) :
    (language tables).whiteSpace.Yields text (fun _ => True) false text := by
  have noComment : ∀ cs, trim text ≠ '#' :: cs := by
    simpa using solid.noComment []
  have read : (language tables).whiteSpace.Yields text (fun _ => True)
      (!(text.takeWhile Chars.isWhitespace).isEmpty) (trim text) := whiteSpace_trim noComment
  obtain ⟨c, cs, rfl, notBlank, -⟩ := solid
  rw [trim_cons_of_not_blank notBlank, List.takeWhile_cons_of_neg (by simp [notBlank])] at read
  exact read

end Continuations

end Mnemosyne.Parser
