import Mnemosyne.Parser.Types
import Mnemosyne.Semantic.Ast

/-! # Expressions and modules

`parse_expr`, the parse functions it reaches, and `parse_module`, from
`parser/src/lib.rs`.  The parse functions that read nested expressions take
the expression parser as an argument, and `expr` ties the knot with
`Parser.fix`; `expr_eq` shows that its fuel is never the limit.
`parse_data`, `parse_sum` and `parse_record` end in `unimplemented!()`, and
`parse_logical` is never called; they are left out.

Every parse function that reads nested expressions `Respects` the parser it
is given, and `parse_expr` reads them only inside brackets, so `expr` is the
fixed point of `parseExpr`.  On text that does not begin with its keyword each
form of the bracketed choice fails without consuming, and the `try` around it
hands the text to the next form.

Two facts about `parse_module` as a whole.  It reads expressions up to the
first text that cannot begin one and drops whatever follows
(`parseModule_stops`).  And the `define` form with a type annotation is never
reached: `function_form` and `top_level` both begin with a name, the
function form fails at the annotation after the name has been read, and
`or` does not try the other form after a failure that consumed input
(`define_topLevel_fails`).
-/

namespace Mnemosyne.Parser

open Combine Combine.Parser Mnemosyne.Types Mnemosyne.Ast

section Parsers

variable (tables : CharTables)

/-- `parse_name`: an identifier with the position it starts at. -/
def parseName : Parser Ident :=
  withPosition fun position =>
    (language tables).identifier.map fun name => ⟨Position.ofSource position, name⟩

/-- The name references with a sigil: the sigil, then a name. -/
def sigilName (sigil : Char) (reference : Ident → NameRef) : Parser NameRef :=
  ((char sigil).seqRight (parseName tables)).map reference

def parseNameDeref : Parser NameRef :=
  sigilName tables '$' NameRef.deref

def parseNameUnique : Parser NameRef :=
  sigilName tables '@' NameRef.unique

def parseNameBorrow : Parser NameRef :=
  sigilName tables '&' NameRef.borrowed

def parseOwnedName : Parser NameRef :=
  (parseName tables).map NameRef.owned

def parseNameRef : Parser Form :=
  (choice [parseNameDeref tables, parseNameUnique tables, parseNameBorrow tables,
    parseOwnedName tables]).map Form.nameRef

def parsePrefixConstraint : Parser Constraint :=
  ((language tables).parens (((((language tables).reservedOp "=>".toList).or
    ((language tables).reservedOp Chars.fatArrow)).seqRight (parseName tables)).and
      (many1 (parseName tables)))).map fun pair => ⟨pair.1, pair.2⟩

def parseInfixConstraint : Parser Constraint :=
  ((language tables).braces (((parseName tables).skip
    (((language tables).reservedOp "=>".toList).or ((language tables).reservedOp Chars.fatArrow))).and
      (many1 (parseName tables)))).map fun pair => ⟨pair.1, pair.2⟩

def parseConstraint : Parser Constraint :=
  (parsePrefixConstraint tables).or (parseInfixConstraint tables)

def parsePrefixSig : Parser Signature :=
  ((language tables).parens (((((language tables).reservedOp "->".toList).or
    ((language tables).reservedOp Chars.arrow)).seqRight (optional (many1 (parseConstraint tables)))).and
      (many1 (typeName tables)))).map fun pair => .mk pair.1 pair.2

def parseInfixSig : Parser Signature :=
  ((language tables).braces ((optional (many1 (parseConstraint tables))).and
    (sepBy1 ((language tables).lex (typeName tables))
      (((language tables).reservedOp "->".toList).or ((language tables).reservedOp Chars.arrow))))).map
        fun pair => .mk pair.1 pair.2

def parseSignature : Parser Signature :=
  (parsePrefixSig tables).or (parseInfixSig tables)

def parseIntConst : Parser Literal :=
  (language tables).integer.map Literal.intConst

def parsePattern : Parser Pattern :=
  (language tables).parens (many (((parseName tables).map PatElement.name).or
    ((parseIntConst tables).map PatElement.lit)))

variable (expr : Parser Expr)

def parseBinding : Parser (Annotated Binding) :=
  withPosition fun position =>
    (((parseName tables).and (typeName tables)).and expr).map fun triple =>
      ⟨.mk triple.1.1 triple.1.2 triple.2, Position.ofSource position⟩

def parseEquation : Parser (Annotated Equation) :=
  withPosition fun position =>
    ((language tables).parens ((parsePattern tables).and (many expr))).map fun pair =>
      ⟨.mk pair.1 pair.2, Position.ofSource position⟩

def parseFunction : Parser Function :=
  (language tables).parens ((choice [(language tables).reserved "fn".toList,
    (language tables).reserved "lambda".toList, (language tables).reserved Chars.lambda]).seqRight
      (((parseSignature tables).and (many1 (parseEquation tables expr))).map fun pair =>
        .mk pair.1 pair.2))

def parseFnPos : Parser (Annotated Function) :=
  withPosition fun position =>
    (parseFunction tables expr).map fun fn => ⟨fn, Position.ofSource position⟩

/-- `function_form` of `parse_def`. -/
def functionForm : Parser DefForm :=
  ((parseName tables).and (parseFnPos tables expr)).map fun pair => .function pair.1 pair.2

/-- `top_level` of `parse_def`. -/
def topLevel : Parser DefForm :=
  (((parseName tables).and (typeName tables)).and expr).map fun triple =>
    .topLevel triple.1.1 triple.1.2 triple.2

def parseDef : Parser Form :=
  ((((language tables).reserved "def".toList).or ((language tables).reserved "define".toList)).seqRight
    ((functionForm tables expr).or (topLevel tables expr))).map Form.define

def parseIf : Parser Form :=
  (((((language tables).reserved "if".toList).seqRight expr).and expr).and (optional expr)).map
    fun triple => .ifForm triple.1.1 triple.1.2 triple.2

def parseLambda : Parser Form :=
  ((((language tables).reserved "lambda".toList).or ((language tables).reserved Chars.lambda)).seqRight
    (parseFunction tables expr)).map Form.lambda

/-- `parse_let`: a `choice` of one alternative, the `let` binding form. -/
def parseLet : Parser Form :=
  (choice [((((language tables).reserved "let".toList).seqRight
    ((language tables).parens (many ((language tables).parens (parseBinding tables expr))))).and
      (many expr)).map fun pair => LetForm.letIn pair.1 pair.2]).map Form.letForm

def parseCall : Parser Form :=
  ((parseName tables).and (many expr)).map fun pair => .app (.mk pair.1 pair.2)

def parseExpr : Parser Expr :=
  withPosition fun position =>
    ((((language tables).parens (choice [attempt (parseCall tables expr),
      attempt (parseDef tables expr), attempt (parseIf tables expr),
      attempt (parseLambda tables expr), attempt (parseLet tables expr)])).or
        (attempt ((parseIntConst tables).map Form.lit))).or (attempt (parseNameRef tables))).map
          fun form => ⟨form, Position.ofSource position⟩

end Parsers

/-- `expr()`: `parse_expr` calling itself. -/
def expr (tables : CharTables) : Parser Expr :=
  fix (parseExpr tables)

/-- `parse_module`: white space, then one or more expressions; the input
left after them is dropped. -/
def parseModule (tables : CharTables) (code : List Char) : Except Unit (List Expr) :=
  (((language tables).whiteSpace.seqRight (many1 (expr tables))).parse code).map Prod.fst

variable {tables : CharTables}

section Recursion

theorem keyword_nonGrowing (word : List Char) : ((language tables).reserved word).NonGrowing :=
  LanguageEnv.reservedWith_nonGrowing (language_lawful tables) _ word

theorem operator_nonGrowing (word : List Char) : ((language tables).reservedOp word).NonGrowing :=
  LanguageEnv.reservedWith_nonGrowing (language_lawful tables) _ word

theorem keywords_nonGrowing (words : List (List Char)) :
    (choice (words.map (language tables).reserved)).NonGrowing :=
  choice_nonGrowing fun q member => by
    obtain ⟨word, -, rfl⟩ := List.mem_map.mp member
    exact keyword_nonGrowing word

theorem parseName_nonGrowing : (parseName tables).NonGrowing :=
  NonGrowing.withPosition fun _ => (LanguageEnv.identifier_nonGrowing (language_lawful tables)).map _

theorem parseName_progresses : (parseName tables).Progresses :=
  Progresses.withPosition fun _ => (LanguageEnv.identifier_progresses (language_lawful tables)).map _

theorem parseName_consumes : (parseName tables).Consumes :=
  Consumes.withPosition fun _ =>
    (LanguageEnv.identifier_consumes ((satisfy_consumes _).or (satisfy_consumes _))).map _

theorem sigilName_nonGrowing {sigil : Char} {reference : Ident → NameRef} :
    (sigilName tables sigil reference).NonGrowing :=
  ((satisfy_nonGrowing _).seqRight parseName_nonGrowing).map _

theorem parseNameRef_nonGrowing : (parseNameRef tables).NonGrowing := by
  apply NonGrowing.map
  apply choice_nonGrowing
  intro q member
  simp only [List.mem_cons, List.not_mem_nil, or_false] at member
  rcases member with rfl | rfl | rfl | rfl
  · exact sigilName_nonGrowing
  · exact sigilName_nonGrowing
  · exact sigilName_nonGrowing
  · exact parseName_nonGrowing.map _

theorem parseNameRef_progresses : (parseNameRef tables).Progresses := by
  apply Progresses.map
  apply choice_progresses
  intro q member
  simp only [List.mem_cons, List.not_mem_nil, or_false] at member
  rcases member with rfl | rfl | rfl | rfl
  all_goals first
    | exact ((satisfy_progresses _).seqRight parseName_nonGrowing).map _
    | exact parseName_progresses.map _

theorem parseNameRef_consumes : (parseNameRef tables).Consumes := by
  apply Consumes.map
  apply choice_consumes
  intro q member
  simp only [List.mem_cons, List.not_mem_nil, or_false] at member
  rcases member with rfl | rfl | rfl | rfl
  all_goals first
    | exact (satisfy_consumes _).bind_left.map _
    | exact parseName_consumes.map _

theorem parseConstraint_nonGrowing : (parseConstraint tables).NonGrowing :=
  ((LanguageEnv.parens_nonGrowing (language_lawful tables)
      ((((operator_nonGrowing _).or (operator_nonGrowing _)).seqRight parseName_nonGrowing).and
        parseName_nonGrowing.many1)).map _).or
    ((LanguageEnv.braces_nonGrowing (language_lawful tables)
      ((parseName_nonGrowing.skip ((operator_nonGrowing _).or (operator_nonGrowing _))).and
        parseName_nonGrowing.many1)).map _)

theorem parseConstraint_progresses : (parseConstraint tables).Progresses :=
  ((LanguageEnv.parens_progresses (language_lawful tables)
      ((((operator_nonGrowing _).or (operator_nonGrowing _)).seqRight parseName_nonGrowing).and
        parseName_nonGrowing.many1)).map _).or
    ((LanguageEnv.braces_progresses (language_lawful tables)
      ((parseName_nonGrowing.skip ((operator_nonGrowing _).or (operator_nonGrowing _))).and
        parseName_nonGrowing.many1)).map _)

theorem parseSignature_nonGrowing : (parseSignature tables).NonGrowing :=
  ((LanguageEnv.parens_nonGrowing (language_lawful tables)
      ((((operator_nonGrowing _).or (operator_nonGrowing _)).seqRight
        parseConstraint_nonGrowing.many1.optional).and typeName_nonGrowing.many1)).map _).or
    ((LanguageEnv.braces_nonGrowing (language_lawful tables)
      (parseConstraint_nonGrowing.many1.optional.and
        ((LanguageEnv.lex_nonGrowing (language_lawful tables) typeName_nonGrowing).sepBy1
          ((operator_nonGrowing _).or (operator_nonGrowing _))))).map _)

theorem parseIntConst_nonGrowing : (parseIntConst tables).NonGrowing :=
  (LanguageEnv.integer_nonGrowing (language_lawful tables)).map _

theorem parseIntConst_progresses : (parseIntConst tables).Progresses :=
  (LanguageEnv.integer_progresses (language_lawful tables)).map _

theorem parseIntConst_consumes : (parseIntConst tables).Consumes :=
  LanguageEnv.integer_consumes.map _

theorem parsePattern_nonGrowing : (parsePattern tables).NonGrowing :=
  LanguageEnv.parens_nonGrowing (language_lawful tables)
    ((parseName_nonGrowing.map _).or (parseIntConst_nonGrowing.map _)).many

theorem parseBinding_respects : Respects (parseBinding tables) where
  nonGrowing _ grows := NonGrowing.withPosition fun _ =>
    ((parseName_nonGrowing.and typeName_nonGrowing).and grows).map _
  eqBelow _ _ _ _ same := EqBelow.withPosition fun _ =>
    (EqBelow.and (parseName_nonGrowing.and typeName_nonGrowing) (EqBelow.refl _ _) same).map _

theorem parseEquation_respects : Respects (parseEquation tables) where
  nonGrowing _ grows := NonGrowing.withPosition fun _ =>
    (LanguageEnv.parens_nonGrowing (language_lawful tables) (parsePattern_nonGrowing.and grows.many)).map _
  eqBelow bound _ _ grows same := EqBelow.withPosition fun _ =>
    ((LanguageEnv.parens_eqBelow (language_lawful tables) (parsePattern_nonGrowing.and grows.many)
      (EqBelow.and parsePattern_nonGrowing (EqBelow.refl _ _) (EqBelow.many grows same))).mono
        (Nat.le_succ bound)).map _

theorem parseFunction_respects : Respects (parseFunction tables) where
  nonGrowing e grows :=
    LanguageEnv.parens_nonGrowing (language_lawful tables)
      ((keywords_nonGrowing ["fn".toList, "lambda".toList, Chars.lambda]).seqRight
        ((parseSignature_nonGrowing.and (parseEquation_respects.nonGrowing e grows).many1).map _))
  eqBelow bound e e' grows same :=
    (LanguageEnv.parens_eqBelow (language_lawful tables)
      ((keywords_nonGrowing ["fn".toList, "lambda".toList, Chars.lambda]).seqRight
        ((parseSignature_nonGrowing.and (parseEquation_respects.nonGrowing e grows).many1).map _))
      (EqBelow.seqRight (keywords_nonGrowing ["fn".toList, "lambda".toList, Chars.lambda])
        (EqBelow.refl _ _) ((EqBelow.and parseSignature_nonGrowing (EqBelow.refl _ _)
          (EqBelow.many1 (parseEquation_respects.nonGrowing e grows)
            (parseEquation_respects.eqBelow bound e e' grows same))).map _))).mono
      (Nat.le_succ bound)

theorem parseFnPos_respects : Respects (parseFnPos tables) where
  nonGrowing e grows := NonGrowing.withPosition fun _ =>
    (parseFunction_respects.nonGrowing e grows).map _
  eqBelow bound e e' grows same := EqBelow.withPosition fun _ =>
    (parseFunction_respects.eqBelow bound e e' grows same).map _

theorem functionForm_respects : Respects (functionForm tables) where
  nonGrowing e grows := (parseName_nonGrowing.and (parseFnPos_respects.nonGrowing e grows)).map _
  eqBelow bound e e' grows same :=
    (EqBelow.and parseName_nonGrowing (EqBelow.refl _ _)
      (parseFnPos_respects.eqBelow bound e e' grows same)).map _

theorem topLevel_respects : Respects (topLevel tables) where
  nonGrowing _ grows := ((parseName_nonGrowing.and typeName_nonGrowing).and grows).map _
  eqBelow _ _ _ _ same :=
    (EqBelow.and (parseName_nonGrowing.and typeName_nonGrowing) (EqBelow.refl _ _) same).map _

theorem parseDef_respects : Respects (parseDef tables) where
  nonGrowing e grows :=
    (((keyword_nonGrowing _).or (keyword_nonGrowing _)).seqRight
      ((functionForm_respects.nonGrowing e grows).or (topLevel_respects.nonGrowing e grows))).map _
  eqBelow bound e e' grows same :=
    (EqBelow.seqRight ((keyword_nonGrowing _).or (keyword_nonGrowing _)) (EqBelow.refl _ _)
      ((functionForm_respects.eqBelow bound e e' grows same).or
        (topLevel_respects.eqBelow bound e e' grows same))).map _

theorem parseIf_respects : Respects (parseIf tables) where
  nonGrowing _ grows := ((((keyword_nonGrowing _).seqRight grows).and grows).and grows.optional).map _
  eqBelow _ _ _ grows same :=
    (EqBelow.and (((keyword_nonGrowing _).seqRight grows).and grows)
      (EqBelow.and ((keyword_nonGrowing _).seqRight grows)
        (EqBelow.seqRight (keyword_nonGrowing _) (EqBelow.refl _ _) same) same)
      (EqBelow.optional same)).map _

theorem parseLambda_respects : Respects (parseLambda tables) where
  nonGrowing e grows :=
    (((keyword_nonGrowing _).or (keyword_nonGrowing _)).seqRight
      (parseFunction_respects.nonGrowing e grows)).map _
  eqBelow bound e e' grows same :=
    (EqBelow.seqRight ((keyword_nonGrowing _).or (keyword_nonGrowing _)) (EqBelow.refl _ _)
      (parseFunction_respects.eqBelow bound e e' grows same)).map _

theorem parseLet_respects : Respects (parseLet tables) where
  nonGrowing e grows :=
    ((((keyword_nonGrowing _).seqRight (LanguageEnv.parens_nonGrowing (language_lawful tables)
      (LanguageEnv.parens_nonGrowing (language_lawful tables)
        (parseBinding_respects.nonGrowing e grows)).many)).and grows.many).map _).or
          fail_nonGrowing |>.map _
  eqBelow bound e e' grows same := by
    have binding : (parseBinding tables e).NonGrowing := parseBinding_respects.nonGrowing e grows
    have bindings : EqBelow bound
        ((language tables).parens (many ((language tables).parens (parseBinding tables e))))
        ((language tables).parens (many ((language tables).parens (parseBinding tables e')))) :=
      (LanguageEnv.parens_eqBelow (language_lawful tables)
        (LanguageEnv.parens_nonGrowing (language_lawful tables) binding).many
        (EqBelow.many (LanguageEnv.parens_nonGrowing (language_lawful tables) binding)
          ((LanguageEnv.parens_eqBelow (language_lawful tables) binding
            (parseBinding_respects.eqBelow bound e e' grows same)).mono
              (Nat.le_succ bound)))).mono (Nat.le_succ bound)
    exact (EqBelow.choice (.cons ((EqBelow.and ((keyword_nonGrowing _).seqRight
      (LanguageEnv.parens_nonGrowing (language_lawful tables)
        (LanguageEnv.parens_nonGrowing (language_lawful tables) binding).many))
      (EqBelow.seqRight (keyword_nonGrowing _) (EqBelow.refl _ _) bindings)
        (EqBelow.many grows same)).map _) .nil)).map _

theorem parseCall_respects : Respects (parseCall tables) where
  nonGrowing _ grows := (parseName_nonGrowing.and grows.many).map _
  eqBelow _ _ _ grows same :=
    (EqBelow.and parseName_nonGrowing (EqBelow.refl _ _) (EqBelow.many grows same)).map _

/-- The five forms tried inside the brackets of `parse_expr`. -/
theorem bracketed_respects : Respects (fun e : Parser Expr =>
    choice [attempt (parseCall tables e), attempt (parseDef tables e), attempt (parseIf tables e),
      attempt (parseLambda tables e), attempt (parseLet tables e)]) where
  nonGrowing e grows := by
    apply choice_nonGrowing
    intro q member
    simp only [List.mem_cons, List.not_mem_nil, or_false] at member
    rcases member with rfl | rfl | rfl | rfl | rfl
    · exact (parseCall_respects.nonGrowing e grows).attempt
    · exact (parseDef_respects.nonGrowing e grows).attempt
    · exact (parseIf_respects.nonGrowing e grows).attempt
    · exact (parseLambda_respects.nonGrowing e grows).attempt
    · exact (parseLet_respects.nonGrowing e grows).attempt
  eqBelow bound e e' grows same :=
    EqBelow.choice (.cons (parseCall_respects.eqBelow bound e e' grows same).attempt
      (.cons (parseDef_respects.eqBelow bound e e' grows same).attempt
        (.cons (parseIf_respects.eqBelow bound e e' grows same).attempt
          (.cons (parseLambda_respects.eqBelow bound e e' grows same).attempt
            (.cons (parseLet_respects.eqBelow bound e e' grows same).attempt .nil)))))

/-- Nested expressions are read only inside brackets. -/
theorem parseExpr_guarded : Guarded (parseExpr tables) where
  nonGrowing e grows := NonGrowing.withPosition fun _ =>
    (((LanguageEnv.parens_nonGrowing (language_lawful tables) (bracketed_respects.nonGrowing e grows)).or
      (parseIntConst_nonGrowing.map _).attempt).or parseNameRef_nonGrowing.attempt).map _
  eqBelow bound e e' grows same := EqBelow.withPosition fun _ =>
    (((LanguageEnv.parens_eqBelow (language_lawful tables) (bracketed_respects.nonGrowing e grows)
      (bracketed_respects.eqBelow bound e e' grows same)).or (EqBelow.refl _ _)).or
        (EqBelow.refl _ _)).map _

/-- `expr()` is `parse_expr` with `expr()` inside. -/
theorem expr_eq : expr tables = parseExpr tables (expr tables) :=
  parseExpr_guarded.fix_eq

theorem expr_nonGrowing : (expr tables).NonGrowing :=
  parseExpr_guarded.fix_nonGrowing

/-- Every alternative of `parse_expr` reads a character first. -/
theorem parseExpr_consumes (e : Parser Expr) : (parseExpr tables e).Consumes :=
  Consumes.withPosition fun _ =>
    ((LanguageEnv.parens_consumes.or (parseIntConst_consumes.map _).attempt).or
      parseNameRef_consumes.attempt).map _

theorem parseExpr_progresses {e : Parser Expr} (grows : e.NonGrowing) :
    (parseExpr tables e).Progresses :=
  Progresses.withPosition fun _ =>
    (((LanguageEnv.parens_progresses (language_lawful tables) (bracketed_respects.nonGrowing e grows)).or
      (parseIntConst_progresses.map _).attempt).or parseNameRef_progresses.attempt).map _

theorem expr_consumes : (expr tables).Consumes := by
  rw [expr_eq]
  exact parseExpr_consumes _

theorem expr_progresses : (expr tables).Progresses := by
  rw [expr_eq]
  exact parseExpr_progresses expr_nonGrowing

end Recursion

section Refusals

variable (e : Parser Expr) {input : List Char}

theorem cons_not_prefix_of_ne {w c : Char} {ws cs : List Char} (differs : w ≠ c) :
    ¬(w :: ws) <+: (c :: cs) :=
  fun isPrefix => differs (List.cons_prefix_cons.mp isPrefix).1

theorem Solid.of_validIdent {name : List Char} (valid : validIdent tables name = true) : Solid name := by
  cases name with
  | nil => cases valid
  | cons c cs =>
      simp only [validIdent, Bool.and_eq_true] at valid
      exact Solid.of_isIdentStart valid.1.1

theorem parseName_yields {name rest : List Char} (valid : validIdent tables name = true)
    (follows : Continues tables rest) :
    (parseName tables).Yields (name ++ rest) (·.value = name) true (trim rest) :=
  Yields.withPosition fun _ => (identifier_yields_name valid follows).map _ fun _ same => same

theorem parseName_fails_of_head {input : List Char}
    (refused : ∀ c cs, input = c :: cs → isIdentStart tables c = false) :
    (parseName tables).Fails input false :=
  Fails.withPosition fun _ => (LanguageEnv.identifier_fails_of_start (identStart_fails refused)).map _

/-- `parse_name` reads a reserved word whole and refuses it. -/
theorem parseName_fails_of_reserved {c : Char} {cs rest : List Char} (isReserved : c :: cs ∈ reservedWords)
    (start : isIdentStart tables c = true) (continues : ∀ d ∈ cs, isIdentRest tables d = true)
    (ends : ∀ d ds, rest = d :: ds → isIdentRest tables d = false) :
    (parseName tables).Fails (c :: cs ++ rest) false :=
  Fails.withPosition fun _ => (identifier_fails_of_reserved_word isReserved start continues ends).map _

/-- The same for a reserved word of letters. -/
theorem parseName_fails_of_keyword {word rest : List Char} (isReserved : word ∈ reservedWords)
    (letters : word.all Char.isAlpha = true) (ends : ∀ d ds, rest = d :: ds → isIdentRest tables d = false) :
    (parseName tables).Fails (word ++ rest) false :=
  Fails.withPosition fun _ => (identifier_fails_of_reserved isReserved letters ends).map _

theorem parseCall_fails_of_name (refused : (parseName tables).Fails input false) :
    (parseCall tables e).Fails input false :=
  (refused.bind _).map _

theorem parseDef_fails_of_unmatched (notDef : ¬"def".toList <+: input)
    (notDefine : ¬"define".toList <+: input) : (parseDef tables e).Fails input false :=
  ((Fails.or (reserved_fails_of_unmatched notDef) (reserved_fails_of_unmatched notDefine)).bind _).map _

theorem parseIf_fails_of_unmatched (notIf : ¬"if".toList <+: input) :
    (parseIf tables e).Fails input false :=
  ((((reserved_fails_of_unmatched notIf).bind _).bind _).bind _).map _

theorem parseLambda_fails_of_unmatched (notLambda : ¬"lambda".toList <+: input)
    (notSymbol : ¬Chars.lambda <+: input) : (parseLambda tables e).Fails input false :=
  ((Fails.or (reserved_fails_of_unmatched notLambda) (reserved_fails_of_unmatched notSymbol)).bind _).map _

/-- Where the keyword fails, the one alternative of the `choice` in
`parse_let` fails, and so does the `choice`, which ends in `fail`. -/
theorem parseLet_fails_of_keyword (refused : ((language tables).reserved "let".toList).Fails input false) :
    (parseLet tables e).Fails input false :=
  (Fails.or ((((refused).bind _).bind _).map _) (fail_fails _)).map _

theorem parseLet_fails_of_unmatched (notLet : ¬"let".toList <+: input) :
    (parseLet tables e).Fails input false :=
  parseLet_fails_of_keyword e (reserved_fails_of_unmatched notLet)

/-- The bracketed choice fails without consuming once every form fails, each
under its `try`. -/
theorem bracketed_fails {c₁ c₂ c₃ c₄ c₅ : Bool}
    (call : (parseCall tables e).Fails input c₁) (definition : (parseDef tables e).Fails input c₂)
    (conditional : (parseIf tables e).Fails input c₃) (lambda : (parseLambda tables e).Fails input c₄)
    (binding : (parseLet tables e).Fails input c₅) :
    (choice [attempt (parseCall tables e), attempt (parseDef tables e), attempt (parseIf tables e),
      attempt (parseLambda tables e), attempt (parseLet tables e)]).Fails input false := by
  apply Fails.choice
  intro q member
  simp only [List.mem_cons, List.not_mem_nil, or_false] at member
  rcases member with rfl | rfl | rfl | rfl | rfl
  · exact call.attempt
  · exact definition.attempt
  · exact conditional.attempt
  · exact lambda.attempt
  · exact binding.attempt

end Refusals

/-- An expression whose bracket holds text that every form refuses fails,
having read the bracket: neither a constant nor a name starts with `(`. -/
theorem expr_fails_bracketed {inner : List Char} (solid : Solid inner)
    (refused : (choice [attempt (parseCall tables (expr tables)), attempt (parseDef tables (expr tables)),
      attempt (parseIf tables (expr tables)), attempt (parseLambda tables (expr tables)),
      attempt (parseLet tables (expr tables))]).Fails inner false) :
    (expr tables).Fails ('(' :: inner) true := by
  rw [expr_eq]
  exact Fails.withPosition fun _ =>
    (((LanguageEnv.parens_fails_of_inner (whiteSpace_solid solid) refused).or_left _).or_left _).map _

section Modules

/-- `parse_module` stops at the first text that cannot begin an
expression: the parse under its `map` reads white space and at least one
expression and leaves a rest, a suffix of the code on which `expr()` fails
without consuming; `parse_module` returns the expressions and drops that
rest. -/
theorem parseModule_stops (tables : CharTables) {code : List Char} {es : List Expr}
    (accepted : parseModule tables code = .ok es) :
    es ≠ [] ∧ ∃ rest, ((language tables).whiteSpace.seqRight (many1 (expr tables))).parse code = .ok (es, rest) ∧
      rest <:+ code ∧ ∃ position, expr tables ⟨position, rest⟩ = .error false := by
  unfold parseModule at accepted
  cases reply : ((language tables).whiteSpace.seqRight (many1 (expr tables))) ⟨.start, code⟩ with
  | error c => simp [Parser.parse, reply, Except.map] at accepted
  | ok es' c rest =>
      simp only [Parser.parse, reply, Except.map, Except.ok.injEq] at accepted
      subst accepted
      have parsed : ((language tables).whiteSpace.seqRight (many1 (expr tables))).parse code =
          .ok (es', rest.input) := by
        simp only [Parser.parse, reply]
      obtain ⟨-, -, middle, later, -, loop, -⟩ := bind_eq_ok reply
      obtain ⟨nonempty, stops⟩ := many1_stops expr_progresses expr_consumes loop
      have suffix := ((LanguageEnv.whiteSpace_nonGrowing (language_lawful tables)).seqRight
        expr_nonGrowing.many1) _ _ _ _ reply
      exact ⟨nonempty, rest.input, parsed, suffix, rest.position, stops⟩

/-- `(f 1) )`: the parse reads `(f 1)` and leaves the stray `)`. -/
theorem parseModule_stops_call :
    parseModule CharTables.ascii ['(', 'f', ' ', '1', ')', ' ', ')'] =
        .ok [⟨.app (.mk ⟨⟨2, 1, 3⟩, ['f']⟩ [⟨.lit (.intConst 1), ⟨4, 1, 5⟩⟩]), ⟨1, 1, 2⟩⟩] ∧
      ([⟨.app (.mk ⟨⟨2, 1, 3⟩, ['f']⟩ [⟨.lit (.intConst 1), ⟨4, 1, 5⟩⟩]), ⟨1, 1, 2⟩⟩] : List Expr) ≠ [] ∧
      ∃ rest, ((language CharTables.ascii).whiteSpace.seqRight (many1 (expr CharTables.ascii))).parse
          ['(', 'f', ' ', '1', ')', ' ', ')'] =
            .ok ([⟨.app (.mk ⟨⟨2, 1, 3⟩, ['f']⟩ [⟨.lit (.intConst 1), ⟨4, 1, 5⟩⟩]), ⟨1, 1, 2⟩⟩], rest) ∧
        rest <:+ ['(', 'f', ' ', '1', ')', ' ', ')'] ∧ ∃ position, expr CharTables.ascii ⟨position, rest⟩ = .error false :=
  ⟨rfl, parseModule_stops CharTables.ascii rfl⟩

/-- A stray closing bracket after a module is not an error: `(f 1) )` reads
as `(f 1)`, and the `)` after it is left over and dropped. -/
theorem parseModule_drops_rest :
    (((language CharTables.ascii).whiteSpace.seqRight (many1 (expr CharTables.ascii))).parse
        ['(', 'f', ' ', '1', ')', ' ', ')']).map (fun read => (read.1.map Expr.erase, read.2)) =
      .ok ([⟨.app (.mk ⟨default, ['f']⟩ [⟨.lit (.intConst 1), default⟩]), default⟩], [')']) ∧
    (parseModule CharTables.ascii ['(', 'f', ' ', '1', ')', ' ', ')']).map (List.map Expr.erase) =
      .ok [⟨.app (.mk ⟨default, ['f']⟩ [⟨.lit (.intConst 1), default⟩]), default⟩] :=
  ⟨rfl, rfl⟩

/-- A module whose first expression, after the blanks in front of it, fails
having consumed input is refused. -/
theorem parseModule_refuses_indented {blanks text : List Char}
    (blank : ∀ c ∈ blanks, Chars.isWhitespace c = true) (solid : Solid text)
    (fails : (expr tables).Fails text true) : parseModule tables (blanks ++ text) = .error () := by
  have trimmed : trim (blanks ++ text) = text := by
    rw [trim_append_of_blank blank, solid.trim_self]
  have noComment : ∀ cs, trim (blanks ++ text) ≠ '#' :: cs := by
    rw [trim_append_of_blank blank]
    simpa using solid.noComment []
  have read := @whiteSpace_trim tables _ noComment
  rw [trimmed] at read
  have refused : ((language tables).whiteSpace.seqRight (many1 (expr tables))).Fails (blanks ++ text) _ :=
    read.bind_fails fun _ _ => Fails.many1 fails
  simp only [parseModule, refused.parse]
  rfl

theorem parseModule_refuses {text : List Char} (solid : Solid text)
    (fails : (expr tables).Fails text true) : parseModule tables text = .error () :=
  @parseModule_refuses_indented tables [] text (fun _ member => absurd member List.not_mem_nil) solid fails

/-- The keyword of a definition, read with the blanks after it. -/
theorem defKeyword_yields {keyword rest : List Char}
    (isDefine : keyword = "define".toList ∨ keyword = "def".toList) (follows : Continues tables rest) :
    (((language tables).reserved "def".toList).or ((language tables).reserved "define".toList)).Yields
      (keyword ++ rest) (fun _ => True) true (trim rest) := by
  rcases isDefine with rfl | rfl
  · have defFails : ((language tables).reserved "def".toList).Fails ("define".toList ++ rest) false := by
      have spelled : "define".toList ++ rest = "def".toList ++ 'i' :: ("ne".toList ++ rest) := rfl
      rw [spelled]
      exact reserved_fails_of_continues _ (isIdentRest_of_isAlpha (by decide))
    exact Yields.or_right defFails (reserved_yields (by decide) follows)
  · exact (reserved_yields (by decide) follows).or_left _

/-- A definition keyword is read by `identifier` and refused. -/
theorem parseName_fails_of_defKeyword {keyword rest : List Char}
    (isDefine : keyword = "define".toList ∨ keyword = "def".toList)
    (ends : ∀ c cs, rest = c :: cs → isIdentRest tables c = false) :
    (parseName tables).Fails (keyword ++ rest) false := by
  have refused : (language tables).identifier.Fails (keyword ++ rest) false := by
    rcases isDefine with rfl | rfl
    · exact identifier_fails_of_reserved (by decide) (by decide) ends
    · exact identifier_fails_of_reserved (by decide) (by decide) ends
  exact Fails.withPosition fun _ => refused.map _

/-- What `parse_expr` tries inside brackets fails on a definition with a
type annotation, without consuming: the call refuses the keyword, the
definition fails under its `try`, and no other form starts with `d`. -/
theorem bracketed_fails_of_topLevel (e : Parser Expr) {keyword name annot rest : List Char}
    (isDefine : keyword = "define".toList ∨ keyword = "def".toList)
    (valid : validIdent tables name = true) (annotSolid : Solid annot)
    (notOpen : annot.head? ≠ some '(') :
    (choice [attempt (parseCall tables e), attempt (parseDef tables e), attempt (parseIf tables e),
      attempt (parseLambda tables e), attempt (parseLet tables e)]).Fails
        (keyword ++ ' ' :: (name ++ ' ' :: (annot ++ rest))) false := by
  have blank : Chars.isWhitespace ' ' = true := by decide
  have nameSolid : Solid name := Solid.of_validIdent valid
  have afterName : Continues tables (' ' :: (annot ++ rest)) :=
    continues_of_blank blank (annotSolid.noComment rest)
  have afterKeyword : Continues tables (' ' :: (name ++ ' ' :: (annot ++ rest))) :=
    continues_of_blank blank (nameSolid.noComment _)
  have annotTrimmed : trim (' ' :: (annot ++ rest)) = annot ++ rest := by
    rw [trim_cons_of_blank blank, annotSolid.trim_append]
  have fnPosFails : (parseFnPos tables e).Fails (annot ++ rest) false := by
    obtain ⟨c, cs, rfl, -, -⟩ := annotSolid
    exact Fails.withPosition fun _ => (LanguageEnv.parens_fails_of_head fun d ds head => by
      cases head
      exact fun same => notOpen (by rw [same]; rfl)).map _
  have nameYields := parseName_yields valid afterName
  rw [annotTrimmed] at nameYields
  have functionFails : (functionForm tables e).Fails (name ++ ' ' :: (annot ++ rest)) true :=
    (nameYields.bind_fails fun _ _ => fnPosFails.map _).map _
  have defFails : (parseDef tables e).Fails (keyword ++ ' ' :: (name ++ ' ' :: (annot ++ rest))) true := by
    have keywordRead := defKeyword_yields isDefine afterKeyword
    rw [trim_cons_of_blank blank, nameSolid.trim_append] at keywordRead
    exact (keywordRead.bind_fails fun _ _ => functionFails.or_left _).map _
  obtain ⟨tail, startsWithD⟩ : ∃ tail, keyword ++ ' ' :: (name ++ ' ' :: (annot ++ rest)) = 'd' :: tail := by
    rcases isDefine with rfl | rfl
    · exact ⟨_, rfl⟩
    · exact ⟨_, rfl⟩
  have unmatched : ∀ w ws, w ≠ 'd' → ¬(w :: ws) <+: keyword ++ ' ' :: (name ++ ' ' :: (annot ++ rest)) := by
    intro w ws differs
    rw [startsWithD]
    exact cons_not_prefix_of_ne differs
  exact bracketed_fails e
    (parseCall_fails_of_name e (parseName_fails_of_defKeyword isDefine afterKeyword.boundary)) defFails
    (parseIf_fails_of_unmatched e (unmatched 'i' ['f'] (by decide)))
    (parseLambda_fails_of_unmatched e (unmatched 'l' "ambda".toList (by decide))
      (unmatched 'λ' [] (by decide)))
    (parseLet_fails_of_unmatched e (unmatched 'l' ['e', 't'] (by decide)))

/-- A definition with a type annotation, `(define n t e)` or `(def n t e)`,
never parses, whatever the body `e`: the module is refused. -/
theorem define_topLevel_fails (tables : CharTables) {keyword name annot body : List Char}
    (isDefine : keyword = "define".toList ∨ keyword = "def".toList)
    (valid : validIdent tables name = true)
    (typed : ∀ position, ∃ ty consumed rest, typeName tables ⟨position, annot⟩ = .ok ty consumed rest) :
    parseModule tables ('(' :: keyword ++ ' ' :: name ++ ' ' :: annot ++ ' ' :: body ++ [')']) =
      .error () := by
  simp only [List.cons_append, List.append_assoc]
  obtain ⟨ty, consumed, rest, accepted⟩ := typed .start
  obtain ⟨c, cs, annotIs, head⟩ := typeName_head accepted
  have annotSolid : Solid annot := by
    rw [annotIs]
    rcases head with alpha | rfl | rfl | rfl
    · exact Solid.of_isIdentStart (@isIdentStart_of_isAlpha tables _ alpha)
    all_goals exact ⟨_, cs, rfl, by decide, by decide⟩
  have notOpen : annot.head? ≠ some '(' := by
    rw [annotIs]
    rcases head with alpha | rfl | rfl | rfl
    · intro same
      cases same
      exact absurd alpha (by decide)
    all_goals simp
  have textSolid : Solid (keyword ++ ' ' :: (name ++ ' ' :: (annot ++ ' ' :: (body ++ [')'])))) := by
    rcases isDefine with rfl | rfl
    all_goals exact ⟨'d', _, rfl, by decide, by decide⟩
  have inner : (choice [attempt (parseCall tables (expr tables)),
      attempt (parseDef tables (expr tables)), attempt (parseIf tables (expr tables)),
      attempt (parseLambda tables (expr tables)), attempt (parseLet tables (expr tables))]).Fails
        (keyword ++ ' ' :: (name ++ ' ' :: (annot ++ ' ' :: (body ++ [')'])))) false :=
    bracketed_fails_of_topLevel (expr tables) isDefine valid annotSolid notOpen
  exact parseModule_refuses ⟨'(', _, rfl, by decide, by decide⟩ (expr_fails_bracketed textSolid inner)

theorem define_topLevel_fails_int :
    ("define".toList = "define".toList ∨ "define".toList = "def".toList) ∧
      validIdent CharTables.ascii ['x'] = true ∧
      (∀ position, ∃ ty consumed rest,
        typeName CharTables.ascii ⟨position, "int".toList⟩ = .ok ty consumed rest) ∧
      parseModule CharTables.ascii
        ('(' :: "define".toList ++ ' ' :: ['x'] ++ ' ' :: "int".toList ++ ' ' :: ['1'] ++ [')']) =
          .error () := by
  have typed : ∀ position, ∃ ty consumed rest,
      typeName CharTables.ascii ⟨position, "int".toList⟩ = .ok ty consumed rest := by
    intro position
    have reads := typeName_reads []
      (by decide : ("int".toList, Primitive.intSize) ∈ primitiveKeywords)
      (continues_nil : Continues CharTables.ascii [])
    obtain ⟨ty, position', reply, -⟩ := reads position
    exact ⟨ty, true, ⟨position', trim []⟩, by simpa using reply⟩
  exact ⟨.inl rfl, by decide, typed, define_topLevel_fails CharTables.ascii (.inl rfl) (by decide) typed⟩

end Modules

end Mnemosyne.Parser
