import Mnemosyne.Combine.Yields

/-! # Lexing from a language definition

The `LanguageEnv` of the crate `combine-language` (0.7), a port of the
`Token` module of Haskell's Parsec.  A language definition says how
identifiers and operators begin and continue, which of them are reserved,
and how comments look.  Every lexeme parser skips the white space after it:
runs of `space()` characters, line comments and block comments, tried in
that order.  Identifiers and reserved words are read under `try`, so that a
word the lexeme does not accept leaves the input where it was.
-/

open Combine.Parser

namespace Combine

structure Identifier where
  start : Parser Char
  rest : Parser Char
  reserved : List (List Char)

structure LanguageDef where
  ident : Identifier
  op : Identifier
  commentLine : Parser Unit
  commentStart : Parser Unit
  commentEnd : Parser Unit

/-- `LanguageEnv::new(def)`, together with the character class of `space()`
that its white space reads. -/
structure LanguageEnv extends LanguageDef where
  isSpace : Char → Bool

/-- The parsers of a definition read characters from their input and nothing
else, and the comment delimiters are not empty. -/
structure LanguageEnv.Lawful (env : LanguageEnv) : Prop where
  identStartGrows : env.ident.start.NonGrowing
  identStartProgresses : env.ident.start.Progresses
  identRestGrows : env.ident.rest.NonGrowing
  identRestProgresses : env.ident.rest.Progresses
  commentLineGrows : env.commentLine.NonGrowing
  commentLineProgresses : env.commentLine.Progresses
  commentStartGrows : env.commentStart.NonGrowing
  commentStartProgresses : env.commentStart.Progresses
  commentEndGrows : env.commentEnd.NonGrowing

namespace LanguageEnv

variable (env : LanguageEnv)

def lineComment : Parser Unit :=
  (attempt env.commentLine).seqRight (skipMany (satisfy (· != '\n')))

/-- The body of a block comment up to its end delimiter, on fuel. -/
def inCommentFuel : Nat → Parser Unit
  | 0 => fail
  | fuel + 1 => (attempt env.commentEnd).or (anyChar.seqRight (inCommentFuel fuel))

def blockComment : Parser Unit :=
  (attempt env.commentStart).seqRight fun s => env.inCommentFuel (s.input.length + 1) s

def whiteSpace : Parser Unit :=
  skipMany (((skipMany1 (satisfy env.isSpace)).or env.lineComment).or env.blockComment)

def lex {α : Type} (p : Parser α) : Parser α :=
  p.skip env.whiteSpace

def symbol (w : List Char) : Parser (List Char) :=
  env.lex (string w)

/-- Read an identifier and refuse it if it is reserved; the refusal counts as
having consumed what was read. -/
def parseIdent : Parser (List Char) := fun s =>
  match (env.ident.start.bind fun c => env.ident.rest.many.map (c :: ·)) s with
  | .ok name consumed rest =>
      if name ∈ env.ident.reserved then .error consumed else .ok name consumed rest
  | .error consumed => .error consumed

def identifier : Parser (List Char) :=
  env.lex (attempt env.parseIdent)

/-- `reserved` and `reserved_op` read a word under `try` and refuse it when
a character that may continue it follows. -/
def reservedWith (letter : Parser Char) (w : List Char) : Parser (List Char) :=
  env.lex (attempt ((string w).skip (notFollowedBy letter)))

def reserved (w : List Char) : Parser (List Char) :=
  env.reservedWith env.ident.rest w

def reservedOp (w : List Char) : Parser (List Char) :=
  env.reservedWith env.op.rest w

/-- The value of a digit string, `n = n * 10 + (c as i64 - '0' as i64)`. -/
def digitsValue (digits : List Char) : Int64 :=
  digits.foldl (fun n c => n * 10 + (Int64.ofNat c.toNat - Int64.ofNat '0'.toNat)) 0

def integer : Parser Int64 :=
  env.lex ((many1 digit).map digitsValue)

def parens {α : Type} (p : Parser α) : Parser α :=
  between (env.symbol ['(']) (env.symbol [')']) p

def braces {α : Type} (p : Parser α) : Parser α :=
  between (env.symbol ['{']) (env.symbol ['}']) p

section Growth

variable {env}
variable (lawful : env.Lawful)
include lawful

theorem inCommentFuel_nonGrowing : ∀ fuel, (env.inCommentFuel fuel).NonGrowing
  | 0 => fail_nonGrowing
  | fuel + 1 =>
      lawful.commentEndGrows.attempt.or
        ((satisfy_nonGrowing _).seqRight (inCommentFuel_nonGrowing fuel))

theorem blockComment_progresses : env.blockComment.Progresses :=
  lawful.commentStartProgresses.attempt.bind_left fun _ s =>
    inCommentFuel_nonGrowing lawful (s.input.length + 1) s

theorem blockComment_nonGrowing : env.blockComment.NonGrowing :=
  lawful.commentStartGrows.attempt.seqRight fun s =>
    inCommentFuel_nonGrowing lawful (s.input.length + 1) s

theorem lineComment_progresses : env.lineComment.Progresses :=
  lawful.commentLineProgresses.attempt.bind_left fun _ =>
    ((satisfy_nonGrowing _).many).map _

theorem lineComment_nonGrowing : env.lineComment.NonGrowing :=
  lawful.commentLineGrows.attempt.seqRight ((satisfy_nonGrowing _).many.map _)

/-- One piece of white space: a run of spaces or a comment. -/
theorem whiteSpacePiece_progresses :
    (((skipMany1 (satisfy env.isSpace)).or env.lineComment).or env.blockComment).Progresses :=
  ((((satisfy_progresses _).many1 (satisfy_nonGrowing _)).map _).or
    (lineComment_progresses lawful)).or (blockComment_progresses lawful)

theorem whiteSpace_nonGrowing : env.whiteSpace.NonGrowing :=
  (((((satisfy_nonGrowing _).many1.map _).or (lineComment_nonGrowing lawful)).or
    (blockComment_nonGrowing lawful)).many).map _

theorem lex_nonGrowing {α : Type} {p : Parser α} (grows : p.NonGrowing) : (env.lex p).NonGrowing :=
  grows.skip (whiteSpace_nonGrowing lawful)

theorem lex_progresses {α : Type} {p : Parser α} (progress : p.Progresses) :
    (env.lex p).Progresses :=
  progress.skip (whiteSpace_nonGrowing lawful)

theorem symbol_nonGrowing (w : List Char) : (env.symbol w).NonGrowing :=
  lex_nonGrowing lawful (string_nonGrowing w)

theorem symbol_progresses {w : List Char} (nonempty : w ≠ []) : (env.symbol w).Progresses :=
  lex_progresses lawful (string_progresses nonempty)

theorem parseIdent_progresses : env.parseIdent.Progresses := by
  have read : (env.ident.start.bind fun c => env.ident.rest.many.map (c :: ·)).Progresses :=
    lawful.identStartProgresses.bind_left fun _ => lawful.identRestGrows.many.map _
  intro s name consumed rest succeeded
  unfold parseIdent at succeeded
  cases reply : (env.ident.start.bind fun c => env.ident.rest.many.map (c :: ·)) s with
  | error c => simp [reply] at succeeded
  | ok name' c rest' =>
      simp only [reply] at succeeded
      split at succeeded
      · cases succeeded
      · cases succeeded
        exact read s _ _ _ reply

theorem parseIdent_nonGrowing : env.parseIdent.NonGrowing := by
  have read : (env.ident.start.bind fun c => env.ident.rest.many.map (c :: ·)).NonGrowing :=
    lawful.identStartGrows.bind fun _ => lawful.identRestGrows.many.map _
  intro s name consumed rest succeeded
  unfold parseIdent at succeeded
  cases reply : (env.ident.start.bind fun c => env.ident.rest.many.map (c :: ·)) s with
  | error c => simp [reply] at succeeded
  | ok name' c rest' =>
      simp only [reply] at succeeded
      split at succeeded
      · cases succeeded
      · cases succeeded
        exact read s _ _ _ reply

theorem identifier_nonGrowing : env.identifier.NonGrowing :=
  lex_nonGrowing lawful (parseIdent_nonGrowing lawful).attempt

theorem identifier_progresses : env.identifier.Progresses :=
  lex_progresses lawful (parseIdent_progresses lawful).attempt

theorem reservedWith_nonGrowing (letter : Parser Char) (w : List Char) :
    (env.reservedWith letter w).NonGrowing :=
  lex_nonGrowing lawful ((string_nonGrowing w).skip (notFollowedBy_nonGrowing _)).attempt

theorem reservedWith_progresses (letter : Parser Char) {w : List Char} (nonempty : w ≠ []) :
    (env.reservedWith letter w).Progresses :=
  lex_progresses lawful ((string_progresses nonempty).skip (notFollowedBy_nonGrowing _)).attempt

theorem integer_nonGrowing : env.integer.NonGrowing :=
  lex_nonGrowing lawful ((satisfy_nonGrowing _).many1.map _)

theorem integer_progresses : env.integer.Progresses :=
  lex_progresses lawful (((satisfy_progresses _).many1 (satisfy_nonGrowing _)).map _)

theorem parens_nonGrowing {α : Type} {p : Parser α} (grows : p.NonGrowing) :
    (env.parens p).NonGrowing :=
  (symbol_nonGrowing lawful _).between (symbol_nonGrowing lawful _) grows

theorem parens_progresses {α : Type} {p : Parser α} (grows : p.NonGrowing) :
    (env.parens p).Progresses :=
  (symbol_progresses lawful (List.cons_ne_nil _ _)).between (symbol_nonGrowing lawful _) grows

theorem braces_nonGrowing {α : Type} {p : Parser α} (grows : p.NonGrowing) :
    (env.braces p).NonGrowing :=
  (symbol_nonGrowing lawful _).between (symbol_nonGrowing lawful _) grows

theorem braces_progresses {α : Type} {p : Parser α} (grows : p.NonGrowing) :
    (env.braces p).Progresses :=
  (symbol_progresses lawful (List.cons_ne_nil _ _)).between (symbol_nonGrowing lawful _) grows

/-- What is between brackets sees an input shorter by the bracket. -/
theorem parens_eqBelow {α : Type} {p q : Parser α} {bound : Nat} (grows : p.NonGrowing)
    (same : EqBelow bound p q) : EqBelow (bound + 1) (env.parens p) (env.parens q) :=
  EqBelow.between (symbol_progresses lawful (List.cons_ne_nil _ _)) (symbol_nonGrowing lawful _)
    grows same

end Growth

section Consumption

variable {env}

theorem lex_consumes {α : Type} {p : Parser α} (consumes : p.Consumes) : (env.lex p).Consumes :=
  consumes.bind_left

theorem symbol_consumes {w : List Char} (nonempty : w ≠ []) : (env.symbol w).Consumes :=
  lex_consumes (string_consumes nonempty)

theorem parseIdent_consumes (starts : env.ident.start.Consumes) : env.parseIdent.Consumes := by
  have read : (env.ident.start.bind fun c => env.ident.rest.many.map (c :: ·)).Consumes :=
    starts.bind_left
  intro s name consumed rest succeeded
  unfold parseIdent at succeeded
  cases reply : (env.ident.start.bind fun c => env.ident.rest.many.map (c :: ·)) s with
  | error c => simp [reply] at succeeded
  | ok name' c rest' =>
      simp only [reply] at succeeded
      split at succeeded
      · cases succeeded
      · cases succeeded
        exact read s _ _ _ reply

theorem identifier_consumes (starts : env.ident.start.Consumes) : env.identifier.Consumes :=
  lex_consumes (parseIdent_consumes starts).attempt

theorem integer_consumes : env.integer.Consumes :=
  lex_consumes ((satisfy_consumes _).bind_left.map _)

theorem parens_consumes {α : Type} {p : Parser α} : (env.parens p).Consumes :=
  Consumes.between (symbol_consumes (List.cons_ne_nil _ _))

end Consumption

section Lexemes

variable {env}

variable {α : Type} {rest rest' : List Char} {consumed : Bool}

/-- The white space parser reads a run of spaces and stops before a character
that is neither a space nor the start of a comment. -/
theorem whiteSpace_yields (lawful : env.Lawful) {ws : List Char} {line block : Bool}
    (spaces : ∀ c ∈ ws, env.isSpace c = true) (stops : ∀ c cs, rest = c :: cs → env.isSpace c = false)
    (noLine : env.commentLine.Fails rest line) (noBlock : env.commentStart.Fails rest block) :
    env.whiteSpace.Yields (ws ++ rest) (fun _ => True) (!ws.isEmpty) rest := by
  have pieceStops :
      (((skipMany1 (satisfy env.isSpace)).or env.lineComment).or env.blockComment).Fails rest false :=
    (((Fails.many1 (satisfy_fails stops)).map _).or (noLine.attempt.bind _)).or
      (noBlock.attempt.bind _)
  have none := many_yields_nil (whiteSpacePiece_progresses lawful) pieceStops
  cases ws with
  | nil =>
      show env.whiteSpace.Yields rest (fun _ => True) false rest
      exact none.map _ fun _ _ => trivial
  | cons c cs =>
      have run : (satisfy env.isSpace).many.Yields (cs ++ rest) (· = cs) (!cs.isEmpty) rest :=
        many_yields_chars (satisfy_progresses _) (satisfy_fails stops) cs
          fun d member r => satisfy_yields (spaces d (by simp [member])) r
      have many1Run : (many1 (satisfy env.isSpace)).Yields (c :: cs ++ rest) (fun _ => True)
          (true || !cs.isEmpty) rest :=
        (satisfy_yields (spaces c (by simp)) (cs ++ rest)).bind fun _ _ =>
          run.map _ fun _ _ => trivial
      have spaceRun : (skipMany1 (satisfy env.isSpace)).Yields (c :: cs ++ rest) (fun _ => True)
          true rest :=
        (many1Run.map _ fun _ _ => trivial).consumed_eq (by simp)
      have head : (((skipMany1 (satisfy env.isSpace)).or env.lineComment).or env.blockComment).Yields
          (c :: cs ++ rest) ((fun _ _ => True) · ()) true rest :=
        (spaceRun.or_left _).or_left _
      have tail : (((skipMany1 (satisfy env.isSpace)).or env.lineComment).or env.blockComment).many.Yields
          rest (List.Forall₂ (fun (_ _ : Unit) => True) · []) false rest :=
        none.mono fun as empty => by simp [empty]
      have pieces : (((skipMany1 (satisfy env.isSpace)).or env.lineComment).or
          env.blockComment).many.Yields (c :: cs ++ rest) (List.Forall₂ (fun (_ _ : Unit) => True) · [()])
          (true || false) rest :=
        many_yields_cons (whiteSpacePiece_progresses lawful) head tail
      show env.whiteSpace.Yields (c :: cs ++ rest) (fun _ => True) true rest
      exact pieces.map _ fun _ _ => trivial

theorem parseIdent_yields (lawful : env.Lawful) {c : Char} {cs : List Char}
    (starts : env.ident.start.Yields (c :: (cs ++ rest)) (· = c) true (cs ++ rest))
    (continues : ∀ d ∈ cs, ∀ r, env.ident.rest.Yields (d :: r) (· = d) true r)
    (ends : env.ident.rest.Fails rest false) (notReserved : c :: cs ∉ env.ident.reserved) :
    env.parseIdent.Yields (c :: cs ++ rest) (· = c :: cs) true rest := by
  have read : (env.ident.start.bind fun c => env.ident.rest.many.map (c :: ·)).Yields
      (c :: (cs ++ rest)) (· = c :: cs) true rest :=
    starts.bind fun a first => (many_yields_chars lawful.identRestProgresses ends cs continues).map _
      fun as later => by rw [first, later]
  intro position
  obtain ⟨name, position', reply, named⟩ := read position
  subst named
  exact ⟨c :: cs, position', by simp [parseIdent, List.cons_append, reply, notReserved], rfl⟩

/-- A reserved word is read in full and then refused, so `identifier`
fails on it without consuming. -/
theorem identifier_fails_of_reserved (lawful : env.Lawful) {c : Char} {cs : List Char}
    (starts : env.ident.start.Yields (c :: (cs ++ rest)) (· = c) true (cs ++ rest))
    (continues : ∀ d ∈ cs, ∀ r, env.ident.rest.Yields (d :: r) (· = d) true r)
    (ends : env.ident.rest.Fails rest false) (isReserved : c :: cs ∈ env.ident.reserved) :
    env.identifier.Fails (c :: cs ++ rest) false := by
  have read : (env.ident.start.bind fun c => env.ident.rest.many.map (c :: ·)).Yields
      (c :: (cs ++ rest)) (· = c :: cs) true rest :=
    starts.bind fun a first => (many_yields_chars lawful.identRestProgresses ends cs continues).map _
      fun as later => by rw [first, later]
  have refused : env.parseIdent.Fails (c :: cs ++ rest) true := by
    intro position
    obtain ⟨name, position', reply, named⟩ := read position
    subst named
    simp [parseIdent, List.cons_append, reply, isReserved]
  exact refused.attempt.bind _

theorem identifier_fails_of_start {input : List Char} {startConsumed : Bool}
    (refused : env.ident.start.Fails input startConsumed) : env.identifier.Fails input false := by
  have parseFails : env.parseIdent.Fails input startConsumed := by
    intro position
    simp [parseIdent, bind_of_error (refused position)]
  exact parseFails.attempt.bind _

theorem identifier_yields (lawful : env.Lawful) {c : Char} {cs : List Char} {blank : Bool}
    (starts : env.ident.start.Yields (c :: (cs ++ rest)) (· = c) true (cs ++ rest))
    (continues : ∀ d ∈ cs, ∀ r, env.ident.rest.Yields (d :: r) (· = d) true r)
    (ends : env.ident.rest.Fails rest false) (notReserved : c :: cs ∉ env.ident.reserved)
    (after : env.whiteSpace.Yields rest (fun _ => True) blank rest') :
    env.identifier.Yields (c :: cs ++ rest) (· = c :: cs) true rest' :=
  ((parseIdent_yields lawful starts continues ends notReserved).attempt.skip after).consumed_eq
    (by simp)

theorem reservedWith_yields {letter : Parser Char} {w : List Char} {letterConsumed blank : Bool}
    (nonempty : w ≠ []) (ends : letter.Fails rest letterConsumed)
    (after : env.whiteSpace.Yields rest (fun _ => True) blank rest') :
    (env.reservedWith letter w).Yields (w ++ rest) (fun _ => True) true rest' := by
  have word := (string_yields w rest).skip (notFollowedBy_yields ends)
  have flag : (!w.isEmpty || false || blank) = true := by
    cases w with
    | nil => exact absurd rfl nonempty
    | cons => rfl
  exact ((word.attempt.skip after).mono fun _ _ => trivial).consumed_eq flag

theorem reservedWith_fails_of_unmatched {letter : Parser Char} {w input : List Char}
    (notPrefix : ¬w <+: input) : (env.reservedWith letter w).Fails input false := by
  obtain ⟨consumed', fails⟩ := string_fails notPrefix
  exact ((fails.bind _).attempt).bind _

/-- A word followed by a character that may continue it is not the reserved
word. -/
theorem reservedWith_fails_of_continues {letter : Parser Char} {w : List Char} {P : Char → Prop}
    {next : List Char} (continues : letter.Yields rest P true next) :
    (env.reservedWith letter w).Fails (w ++ rest) false := by
  have word : ((string w).skip (notFollowedBy letter)).Fails (w ++ rest) (!w.isEmpty || true) :=
    (string_yields w rest).bind_fails fun _ _ => (notFollowedBy_fails continues).map _
  exact (word.attempt).bind _

theorem symbol_yields {w : List Char} {blank : Bool} (nonempty : w ≠ [])
    (after : env.whiteSpace.Yields rest (fun _ => True) blank rest') :
    (env.symbol w).Yields (w ++ rest) (· = w) true rest' := by
  have flag : (!w.isEmpty || blank) = true := by
    cases w with
    | nil => exact absurd rfl nonempty
    | cons => rfl
  exact ((string_yields w rest).skip after).consumed_eq flag

theorem digitsValue_append_digit (digits : List Char) {d : Nat} (small : d < 10) :
    digitsValue (digits ++ [Nat.digitChar d]) = digitsValue digits * 10 + Int64.ofNat d := by
  have code : (Nat.digitChar d).toNat = 48 + d := by
    have codes : ∀ d, d < 10 → (Nat.digitChar d).toNat = 48 + d := by decide
    exact codes d small
  have digit : Int64.ofNat (48 + d) - Int64.ofNat '0'.toNat = Int64.ofNat d := by
    rw [Int64.ofNat_add, Int64.add_comm]
    exact Int64.add_sub_cancel _ _
  simp only [digitsValue, List.foldl_append, List.foldl_cons, List.foldl_nil, code, digit]

/-- The decimal digits of a number read back as the number, wrapped to 64 bits. -/
theorem digitsValue_toDigits (n : Nat) : digitsValue (Nat.toDigits 10 n) = Int64.ofNat n := by
  induction n using Nat.strongRecOn with
  | _ n ih =>
    rw [Nat.toDigits_eq_if (by decide)]
    split
    case isTrue small =>
      have single := digitsValue_append_digit [] small
      simpa [digitsValue] using single
    case isFalse large =>
      have ten : (10 : Int64) = Int64.ofNat 10 := rfl
      rw [digitsValue_append_digit _ (Nat.mod_lt n (by decide)), ih (n / 10) (by omega), ten,
        ← Int64.ofNat_mul, ← Int64.ofNat_add, Nat.div_add_mod']

theorem integer_yields {digits : List Char} {blank : Bool} (nonempty : digits ≠ [])
    (allDigits : ∀ d ∈ digits, d.isDigit = true) (ends : ∀ c cs, rest = c :: cs → c.isDigit = false)
    (after : env.whiteSpace.Yields rest (fun _ => True) blank rest') :
    env.integer.Yields (digits ++ rest) (· = digitsValue digits) true rest' := by
  obtain ⟨d, ds, rfl⟩ := List.exists_cons_of_ne_nil nonempty
  have run : digit.many.Yields (ds ++ rest) (· = ds) (!ds.isEmpty) rest :=
    many_yields_chars (satisfy_progresses _) (satisfy_fails ends) ds
      fun c member r => satisfy_yields (allDigits c (by simp [member])) r
  have read : (many1 digit).Yields (d :: ds ++ rest) (· = d :: ds) true rest :=
    ((satisfy_yields (allDigits d (by simp)) (ds ++ rest)).bind fun a first =>
      run.map _ fun as later => by rw [first, later]).consumed_eq (by simp)
  exact (((read.map digitsValue fun digits same => by rw [same]).skip after)).consumed_eq (by simp)

theorem integer_fails {input : List Char} (refused : ∀ c cs, input = c :: cs → c.isDigit = false) :
    env.integer.Fails input false :=
  ((Fails.many1 (satisfy_fails refused)).map _).bind _

theorem parens_yields {p : Parser α} {inner afterOpen : List Char} {P : α → Prop}
    {c₁ c₂ c₃ : Bool} (openBlank : env.whiteSpace.Yields inner (fun _ => True) c₁ afterOpen)
    (body : p.Yields afterOpen P c₂ (')' :: rest))
    (closeBlank : env.whiteSpace.Yields rest (fun _ => True) c₃ rest') :
    (env.parens p).Yields ('(' :: inner) P true rest' :=
  (Yields.between ((symbol_yields (List.cons_ne_nil _ _) openBlank).mono fun _ _ => trivial)
    body ((symbol_yields (List.cons_ne_nil _ _) closeBlank).mono fun _ _ => trivial)).consumed_eq
    (by simp)

theorem braces_yields {p : Parser α} {inner afterOpen : List Char} {P : α → Prop}
    {c₁ c₂ c₃ : Bool} (openBlank : env.whiteSpace.Yields inner (fun _ => True) c₁ afterOpen)
    (body : p.Yields afterOpen P c₂ ('}' :: rest))
    (closeBlank : env.whiteSpace.Yields rest (fun _ => True) c₃ rest') :
    (env.braces p).Yields ('{' :: inner) P true rest' :=
  (Yields.between ((symbol_yields (List.cons_ne_nil _ _) openBlank).mono fun _ _ => trivial)
    body ((symbol_yields (List.cons_ne_nil _ _) closeBlank).mono fun _ _ => trivial)).consumed_eq
    (by simp)

/-- Once the opening bracket is read, a failure inside has consumed input. -/
theorem parens_fails_of_inner {p : Parser α} {inner afterOpen : List Char} {c₁ c₂ : Bool}
    (openBlank : env.whiteSpace.Yields inner (fun _ => True) c₁ afterOpen)
    (body : p.Fails afterOpen c₂) : (env.parens p).Fails ('(' :: inner) true := by
  have opened : ((env.symbol ['(']).seqRight p).Fails ('(' :: inner) true :=
    (symbol_yields (List.cons_ne_nil _ _) openBlank).bind_fails fun _ _ => body
  exact opened.bind _

theorem parens_fails_of_head {p : Parser α} {input : List Char}
    (mismatch : ∀ d ds, input = d :: ds → d ≠ '(') : (env.parens p).Fails input false :=
  (((string_fails_of_head mismatch).bind _).bind _).bind _

theorem braces_fails_of_head {p : Parser α} {input : List Char}
    (mismatch : ∀ d ds, input = d :: ds → d ≠ '{') : (env.braces p).Fails input false :=
  (((string_fails_of_head mismatch).bind _).bind _).bind _

end Lexemes

end LanguageEnv

end Combine
