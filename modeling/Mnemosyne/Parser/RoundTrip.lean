import Mnemosyne.Parser.Expr
import Mnemosyne.Semantic.Print

/-! # Printed expressions read back

`Node::to_sexpr` and `parse_expr` agree on a fragment of the language: calls,
integer constants that are not negative, name references, and definitions of
functions whose signatures have no constraints and whose equations match
names and constants.  On that fragment the text an expression prints to is
parsed back into the same expression, positions apart
(`printed_expr_reads_back`).  Outside it the two part: `to_sexpr` has no arm
for `if`, so a conditional that `parse_module` reads does not print at all
(`parsed_if_not_printed`).  A lambda prints as its function alone,
`(λ sig eqs)`, while `parse_lambda` reads a keyword and then a bracketed
function (`lambda_print_refused`); let bindings print between square brackets,
where `parse_let` reads round ones (`let_print_refused`).

The proof reads the printed text form by form.  `ReadsBack p P text` says that
`p`, started on `text` and whatever may follow a lexeme, reads a value with
`P` and stops after the blanks behind the text; each printed form gets one
such lemma, and a mutual induction along the printer's own recursion
assembles them.  `parse_expr` tries a bracketed form, then an integer constant,
then a name reference, and the text of each printed form starts with what
selects its branch.
-/

namespace Mnemosyne.Types

/-- A signature that `parse_prefix_sig` reads back: no constraints, and a type
chain of types that print and read back. -/
def Signature.printable (sig : Signature) : Bool :=
  sig.constraints.isNone && !sig.typechain.isEmpty && sig.typechain.all Ty.readsBack

end Mnemosyne.Types

namespace Mnemosyne.Ast

open Mnemosyne.Parser Mnemosyne.Types

section Printable

variable (tables : CharTables)

/-- A literal that prints as its digits alone. -/
def Literal.printable : Literal → Bool
  | .intConst n => decide (0 ≤ n.toInt)
  | _ => false

def NameRef.printable : NameRef → Bool
  | .owned name | .borrowed name | .deref name | .unique name => validIdent tables name.value

def PatElement.printable : PatElement → Bool
  | .name n => validIdent tables n.value
  | .lit c => c.printable
  | _ => false

mutual

/-- The forms whose printed text `parse_expr` reads back. -/
def Form.printable : Form → Bool
  | .define form => DefForm.printable form
  | .app (.mk fn params) => validIdent tables fn.value && Expr.printableList params
  | .lit c => c.printable
  | .nameRef n => n.printable tables
  | _ => false

def Expr.printable : Expr → Bool
  | ⟨form, _⟩ => Form.printable form

def Expr.printableList : List Expr → Bool
  | [] => true
  | e :: es => Expr.printable e && Expr.printableList es

def DefForm.printable : DefForm → Bool
  | .function name ⟨fn, _⟩ => validIdent tables name.value && Function.printable fn
  | .topLevel .. => false

def Function.printable : Function → Bool
  | .mk sig equations => sig.printable && !equations.isEmpty && Equation.printableList equations

def Equation.printable : Equation → Bool
  | .mk pattern body => pattern.all (PatElement.printable tables) && Expr.printableList body

def Equation.printableList : List (Annotated Equation) → Bool
  | [] => true
  | ⟨eq, _⟩ :: eqs => Equation.printable eq && Equation.printableList eqs

end

end Printable

end Mnemosyne.Ast

namespace Mnemosyne.Parser

open Combine Combine.Parser Mnemosyne.Types Mnemosyne.Ast

variable {tables : CharTables} {α β : Type}

section Indentation

/-- Text that starts solid once the blanks in front of it are read. -/
def Indented (text : List Char) : Prop :=
  ∃ blanks body, text = blanks ++ body ∧ (∀ c ∈ blanks, Chars.isWhitespace c = true) ∧ Solid body

theorem Solid.indented {text : List Char} (solid : Solid text) : Indented text :=
  ⟨[], text, rfl, fun _ member => absurd member List.not_mem_nil, solid⟩

theorem indent_blank (level : Nat) : ∀ c ∈ indent level, Chars.isWhitespace c = true := by
  intro c member
  rw [(List.mem_replicate.mp member).2]
  decide

theorem Indented.noComment {text : List Char} (indented : Indented text) (u : List Char) :
    ∀ cs, trim (text ++ u) ≠ '#' :: cs := by
  obtain ⟨blanks, body, rfl, blank, solid⟩ := indented
  rw [List.append_assoc, trim_append_of_blank blank]
  exact solid.noComment u

/-- A lexeme may stop at blanks in front of indented text. -/
theorem Indented.continues_after {text sep : List Char} (indented : Indented text)
    (nonempty : sep ≠ []) (blank : ∀ c ∈ sep, Chars.isWhitespace c = true) (u : List Char) :
    Continues tables (sep ++ (text ++ u)) := by
  obtain ⟨c, cs, rfl⟩ := List.exists_cons_of_ne_nil nonempty
  have blanks : ∀ d ∈ cs, Chars.isWhitespace d = true := fun d member => blank d (by simp [member])
  have noComment : ∀ ds, trim (cs ++ (text ++ u)) ≠ '#' :: ds := by
    rw [trim_append_of_blank blanks]
    exact indented.noComment u
  exact continues_of_blank (blank c (by simp)) noComment

/-- Texts joined by a separator and closed by a bracket start no comment once
the blanks in front of them are read. -/
theorem joined_noComment {sep : List Char} {texts : List (List Char)}
    (indented : ∀ t ∈ texts, Indented t) (z : List Char) :
    ∀ cs, trim (sep.intercalate texts ++ ')' :: z) ≠ '#' :: cs := by
  cases texts with
  | nil =>
      rw [List.intercalate_nil, List.nil_append, trim_cons_of_not_blank (by decide)]
      intro cs same
      cases same
  | cons t ts =>
      obtain ⟨u, joined⟩ := intercalate_cons_append sep t ts (')' :: z)
      rw [joined]
      exact (indented t (by simp)).noComment u

end Indentation

section Reading

/-- `p` reads `text` back as a value with `P`: started on the text followed by
anything a lexeme may stop before, it reads the text and the blanks behind it. -/
structure ReadsBack (tables : CharTables) (p : Parser α) (P : α → Prop) (text : List Char) : Prop where
  indented : Indented text
  reads : ∀ z, Continues tables z → p.Yields (trim (text ++ z)) P true (trim z)

theorem ReadsBack.of_solid {p : Parser α} {P : α → Prop} {text : List Char} (solid : Solid text)
    (reads : ∀ z, Continues tables z → p.Yields (text ++ z) P true (trim z)) :
    ReadsBack tables p P text where
  indented := solid.indented
  reads z follows := by
    rw [solid.trim_append z]
    exact reads z follows

theorem ReadsBack.indented_all {p : Parser α} {R : α → β → Prop} :
    ∀ {xs : List β} {texts : List (List Char)},
      List.Forall₂ (fun x text => ReadsBack tables p (R · x) text) xs texts → ∀ t ∈ texts, Indented t
  | _, _, .nil => fun _ member => absurd member List.not_mem_nil
  | _, _, .cons head tail => by
      intro t member
      rcases List.mem_cons.mp member with rfl | later
      · exact head.indented
      · exact ReadsBack.indented_all tail t later

/-- Texts joined by blanks and closed by a bracket, each read back by `p`:
`many p` reads them all and stops at the bracket. -/
theorem many_reads_back {p : Parser α} {R : α → β → Prop} (progress : p.Progresses)
    (stop : ∀ z, p.Fails (')' :: z) false) {sep : List Char} (nonempty : sep ≠ [])
    (blank : ∀ c ∈ sep, Chars.isWhitespace c = true) {xs : List β} {texts : List (List Char)}
    (items : List.Forall₂ (fun x text => ReadsBack tables p (R · x) text) xs texts) (z : List Char) :
    p.many.Yields (trim (sep.intercalate texts ++ ')' :: z)) (List.Forall₂ R · xs) (!xs.isEmpty)
      (')' :: z) :=
  many_yields_intercalate progress (fun _ => trim_append_of_blank blank) (continues_close z)
    (trim_cons_of_not_blank (by decide)) (stop z)
    (items.imp fun _ _ reads => ⟨reads.indented.continues_after nonempty blank, reads.reads⟩)

/-- A list of values each of which prints is printed by `mapM`. -/
theorem mapM_some_of_forall {γ δ : Type} {f : γ → Option δ} {Q : γ → δ → Prop} :
    ∀ {xs : List γ}, (∀ x ∈ xs, ∃ y, f x = some y ∧ Q x y) →
      ∃ ys, xs.mapM f = some ys ∧ List.Forall₂ Q xs ys
  | [], _ => ⟨[], rfl, .nil⟩
  | x :: xs, each => by
      obtain ⟨y, printed, holds⟩ := each x (by simp)
      obtain ⟨ys, rest, related⟩ := mapM_some_of_forall fun x' member => each x' (List.mem_cons_of_mem x member)
      exact ⟨y :: ys, by simp [printed, rest], .cons holds related⟩

end Reading

section Leaves

theorem isIdentStart_of_ascii_refused {c : Char} (ascii : c.toNat < 128)
    (refused : (c.isAlpha || Chars.alphaExt.contains c) = false) : isIdentStart tables c = false := by
  rw [isIdentStart_of_ascii ascii]
  exact refused

theorem Solid.of_isDigit {c : Char} {cs : List Char} (digit : c.isDigit = true) : Solid (c :: cs) := by
  refine ⟨c, cs, rfl, isIdentRest_not_whitespace (@isIdentRest_of_isDigit CharTables.ascii _ digit), ?_⟩
  rintro rfl
  exact absurd digit (by decide)

theorem sigilName_yields {sigil : Char} {reference : Ident → NameRef} {name rest : List Char}
    (valid : validIdent tables name = true) (follows : Continues tables rest) :
    (sigilName tables sigil reference).Yields (sigil :: (name ++ rest))
      (fun n => ∃ ident : Ident, n = reference ident ∧ ident.value = name) true (trim rest) :=
  ((satisfy_yields (beq_self_eq_true sigil) _).seqRight (parseName_yields valid follows)).map
    reference fun ident same => ⟨ident, rfl, same⟩

theorem sigilName_fails {sigil : Char} {reference : Ident → NameRef} {input : List Char}
    (mismatch : ∀ c cs, input = c :: cs → c ≠ sigil) :
    (sigilName tables sigil reference).Fails input false :=
  ((satisfy_fails fun c cs head => beq_eq_false_iff_ne.mpr (mismatch c cs head)).bind _).map _

theorem isIdentStart_ne {c d : Char} (start : isIdentStart tables c = true)
    (refused : isIdentStart tables d = false) : c ≠ d := by
  rintro rfl
  rw [start] at refused
  cases refused

/-- The text of a name reference begins with its sigil or its name, neither of
which is a bracket, a digit, a blank or a comment. -/
theorem NameRef.toSexpr_head {n : NameRef} (printable : n.printable tables = true) :
    ∃ c cs, n.toSexpr = c :: cs ∧ c ≠ '(' ∧ c.isDigit = false ∧ Solid (c :: cs) := by
  have ofName : ∀ name : List Char, validIdent tables name = true →
      ∃ c cs, name = c :: cs ∧ c ≠ '(' ∧ c.isDigit = false ∧ Solid (c :: cs) := by
    intro name valid
    obtain ⟨c, cs, rfl, -, -⟩ := Solid.of_validIdent valid
    have start : isIdentStart tables c = true := by
      simp only [validIdent, Bool.and_eq_true] at valid
      exact valid.1.1
    exact ⟨c, cs, rfl, isIdentStart_ne start (isIdentStart_of_ascii_refused (by decide) (by decide)),
      isIdentStart_not_digit start, Solid.of_isIdentStart start⟩
  cases n with
  | owned name => exact ofName name.value printable
  | borrowed name => exact ⟨'&', _, rfl, by decide, by decide, ⟨_, _, rfl, by decide, by decide⟩⟩
  | deref name => exact ⟨'$', _, rfl, by decide, by decide, ⟨_, _, rfl, by decide, by decide⟩⟩
  | unique name => exact ⟨'@', _, rfl, by decide, by decide, ⟨_, _, rfl, by decide, by decide⟩⟩

/-- A name reference reads back from its text: the sigil parsers before the
one that matches fail on their first character, and a name without a sigil
starts with none of them. -/
theorem parseNameRef_reads {n : NameRef} (printable : n.printable tables = true) {rest : List Char}
    (follows : Continues tables rest) :
    (parseNameRef tables).Yields (n.toSexpr ++ rest) (fun form => form.erase = (Form.nameRef n).erase)
      true (trim rest) := by
  have same : ∀ (reference : Ident → NameRef) (name ident : Ident),
      (∀ i : Ident, (reference i).erase = reference i.erase) → ident.value = name.value →
        (Form.nameRef (reference ident)).erase = (Form.nameRef (reference name)).erase := by
    intro reference name ident erased value
    simp only [Form.erase, erased, Positional.erase_eq_erase_iff.mpr value]
  cases n with
  | deref name =>
      exact ((sigilName_yields printable follows).or_left _).map _ (by
        rintro _ ⟨ident, rfl, value⟩
        exact same _ name ident (fun _ => rfl) value)
  | unique name =>
      exact (Yields.or_right (sigilName_fails fun _ _ head => by cases head; decide)
        ((sigilName_yields printable follows).or_left _)).map _ (by
          rintro _ ⟨ident, rfl, value⟩
          exact same _ name ident (fun _ => rfl) value)
  | borrowed name =>
      exact (Yields.or_right (sigilName_fails fun _ _ head => by cases head; decide)
        (Yields.or_right (sigilName_fails fun _ _ head => by cases head; decide)
          ((sigilName_yields printable follows).or_left _))).map _ (by
            rintro _ ⟨ident, rfl, value⟩
            exact same _ name ident (fun _ => rfl) value)
  | owned name =>
      obtain ⟨c, cs, spelled, -, -, -⟩ := @NameRef.toSexpr_head tables (.owned name) printable
      have start : isIdentStart tables c = true := by
        have valid : validIdent tables name.value = true := printable
        simp only [NameRef.toSexpr] at spelled
        rw [spelled] at valid
        simp only [validIdent, Bool.and_eq_true] at valid
        exact valid.1.1
      have notSigil : ∀ sigil, isIdentStart tables sigil = false →
          ∀ d ds, name.value ++ rest = d :: ds → d ≠ sigil := by
        intro sigil refused d ds head
        simp only [NameRef.toSexpr] at spelled
        rw [spelled, List.cons_append] at head
        cases head
        exact isIdentStart_ne start refused
      have refused : ∀ sigil, (sigil.isAlpha || Chars.alphaExt.contains sigil) = false →
          sigil.toNat < 128 → isIdentStart tables sigil = false :=
        fun _ letters ascii => isIdentStart_of_ascii_refused ascii letters
      have owned : (parseOwnedName tables).Yields (name.value ++ rest)
          (fun n => ∃ ident : Ident, n = .owned ident ∧ ident.value = name.value) true (trim rest) :=
        (parseName_yields printable follows).map _ fun ident value => ⟨ident, rfl, value⟩
      exact (Yields.or_right (sigilName_fails (notSigil '$' (refused _ (by decide) (by decide))))
        (Yields.or_right (sigilName_fails (notSigil '@' (refused _ (by decide) (by decide))))
          (Yields.or_right (sigilName_fails (notSigil '&' (refused _ (by decide) (by decide))))
            (owned.or_left _)))).map _ (by
              rintro _ ⟨ident, rfl, value⟩
              exact same _ name ident (fun _ => rfl) value)

theorem decimal_of_nonneg {n : Int} (nonneg : 0 ≤ n) : decimal n = Nat.toDigits 10 n.toNat := by
  rw [decimal, if_neg (Int.not_lt.mpr nonneg)]

/-- A constant that is not negative prints as the digits of its value, and
the digits read back as the constant. -/
theorem parseIntConst_reads {k : Int64} (nonneg : 0 ≤ k.toInt) {rest : List Char}
    (follows : Continues tables rest) :
    (parseIntConst tables).Yields ((Literal.intConst k).fmt ++ rest) (· = .intConst k) true
      (trim rest) := by
  have value : Int64.ofNat k.toInt.toNat = k := by
    rw [← Int64.ofInt_eq_ofNat, Int.toNat_of_nonneg nonneg, Int64.ofInt_toInt]
  have read := integer_yields_decimal k.toInt.toNat follows
  rw [value] at read
  simp only [Literal.fmt, decimal_of_nonneg nonneg]
  exact read.map _ fun _ same => by rw [same]

theorem Literal.fmt_head {c : Literal} (printable : c.printable = true) :
    ∃ d ds, c.fmt = d :: ds ∧ d.isDigit = true := by
  cases c with
  | intConst k =>
      have nonneg : 0 ≤ k.toInt := of_decide_eq_true printable
      obtain ⟨d, ds, spelled⟩ := List.exists_cons_of_ne_nil
        (Nat.toDigits_ne_nil : Nat.toDigits 10 k.toInt.toNat ≠ [])
      refine ⟨d, ds, by simp only [Literal.fmt, decimal_of_nonneg nonneg, spelled], ?_⟩
      exact Nat.isDigit_of_mem_toDigits (by decide) (by decide) (spelled ▸ List.mem_cons_self)
  | uintConst _ => cases printable
  | stringLit _ => cases printable

end Leaves

section Entries

/-- `parse_expr` on what the bracketed choice reads. -/
theorem expr_yields_bracketed {input rest : List Char} {P : Form → Prop} {consumed : Bool}
    (reads : ((language tables).parens (choice [attempt (parseCall tables (expr tables)),
      attempt (parseDef tables (expr tables)), attempt (parseIf tables (expr tables)),
      attempt (parseLambda tables (expr tables)), attempt (parseLet tables (expr tables))])).Yields
        input P consumed rest) :
    (expr tables).Yields input (fun e => P e.node) consumed rest := by
  rw [expr_eq]
  exact Yields.withPosition fun _ => ((reads.or_left _).or_left _).map _ fun _ holds => holds

theorem expr_yields_intConst {input rest : List Char} {Q : Literal → Prop} {consumed : Bool}
    (notOpen : ∀ cs, input ≠ '(' :: cs) (reads : (parseIntConst tables).Yields input Q consumed rest) :
    (expr tables).Yields input (fun e => ∃ c, e.node = .lit c ∧ Q c) consumed rest := by
  rw [expr_eq]
  have parensFails := @LanguageEnv.parens_fails_of_head (language tables) Form
    (choice [attempt (parseCall tables (expr tables)), attempt (parseDef tables (expr tables)),
      attempt (parseIf tables (expr tables)), attempt (parseLambda tables (expr tables)),
      attempt (parseLet tables (expr tables))]) input
    fun d ds head same => notOpen ds (same ▸ head)
  exact Yields.withPosition fun _ => ((Yields.or_right parensFails
    ((reads.map Form.lit fun c holds => ⟨c, rfl, holds⟩).attempt)).or_left _).map _ fun _ holds => holds

theorem expr_yields_nameRef {input rest : List Char} {P : Form → Prop} {consumed : Bool}
    (notOpen : ∀ cs, input ≠ '(' :: cs) (notDigit : ∀ c cs, input = c :: cs → c.isDigit = false)
    (reads : (parseNameRef tables).Yields input P consumed rest) :
    (expr tables).Yields input (fun e => P e.node) consumed rest := by
  rw [expr_eq]
  have parensFails := @LanguageEnv.parens_fails_of_head (language tables) Form
    (choice [attempt (parseCall tables (expr tables)), attempt (parseDef tables (expr tables)),
      attempt (parseIf tables (expr tables)), attempt (parseLambda tables (expr tables)),
      attempt (parseLet tables (expr tables))]) input
    fun d ds head same => notOpen ds (same ▸ head)
  have intFails : (attempt ((parseIntConst tables).map Form.lit)).Fails input false :=
    (((LanguageEnv.integer_fails notDigit).map _).map _).attempt
  exact Yields.withPosition fun _ =>
    (Yields.or_right (parensFails.or intFails) reads.attempt).map _ fun _ holds => holds

/-- `parse_expr` fails without consuming on text that begins none of its forms. -/
theorem expr_fails_of_head {input : List Char}
    (refused : ∀ c cs, input = c :: cs → c ≠ '(' ∧ c.isDigit = false ∧
      isIdentStart tables c = false ∧ c ≠ '$' ∧ c ≠ '@' ∧ c ≠ '&') :
    (expr tables).Fails input false := by
  rw [expr_eq]
  have parensFails := @LanguageEnv.parens_fails_of_head (language tables) Form
    (choice [attempt (parseCall tables (expr tables)), attempt (parseDef tables (expr tables)),
      attempt (parseIf tables (expr tables)), attempt (parseLambda tables (expr tables)),
      attempt (parseLet tables (expr tables))]) input
    fun d ds head => (refused d ds head).1
  have intFails : (attempt ((parseIntConst tables).map Form.lit)).Fails input false :=
    (((LanguageEnv.integer_fails fun d ds head => (refused d ds head).2.1).map _).map _).attempt
  have nameRefFails : (parseNameRef tables).Fails input false := by
    apply Fails.map
    apply Fails.choice
    intro q member
    simp only [List.mem_cons, List.not_mem_nil, or_false] at member
    rcases member with rfl | rfl | rfl | rfl
    · exact sigilName_fails fun d ds head => (refused d ds head).2.2.2.1
    · exact sigilName_fails fun d ds head => (refused d ds head).2.2.2.2.1
    · exact sigilName_fails fun d ds head => (refused d ds head).2.2.2.2.2
    · exact (parseName_fails_of_head fun d ds head => (refused d ds head).2.2.1).map _
  exact Fails.withPosition fun _ => ((parensFails.or intFails).or nameRefFails.attempt).map _

theorem expr_fails_close (z : List Char) : (expr tables).Fails (')' :: z) false :=
  expr_fails_of_head fun c cs head => by
    cases head
    exact ⟨by decide, by decide, isIdentStart_of_ascii_refused (by decide) (by decide), by decide,
      by decide, by decide⟩

theorem expr_fails_nil : (expr tables).Fails [] false :=
  expr_fails_of_head fun _ _ empty => by cases empty

/-- A name reference reads back as an expression. -/
theorem expr_reads_nameRef {n : NameRef} (printable : n.printable tables = true) :
    ReadsBack tables (expr tables) (fun e => e.node.erase = (Form.nameRef n).erase) n.toSexpr := by
  obtain ⟨c, cs, spelled, notOpen, notDigit, solid⟩ := NameRef.toSexpr_head printable
  refine ReadsBack.of_solid (spelled ▸ solid) fun z follows => ?_
  refine expr_yields_nameRef (fun ds same => ?_) (fun d ds same => ?_) (parseNameRef_reads printable follows)
  · rw [spelled, List.cons_append] at same
    cases same
    exact notOpen rfl
  · rw [spelled, List.cons_append] at same
    cases same
    exact notDigit

/-- A constant reads back as an expression. -/
theorem expr_reads_lit {c : Literal} (printable : c.printable = true) :
    ReadsBack tables (expr tables) (fun e => e.node.erase = (Form.lit c).erase) c.fmt := by
  obtain ⟨d, ds, spelled, digit⟩ := Literal.fmt_head printable
  refine ReadsBack.of_solid (spelled ▸ Solid.of_isDigit digit) fun z follows => ?_
  cases c with
  | intConst k =>
      have notOpen : ∀ cs, (Literal.intConst k).fmt ++ z ≠ '(' :: cs := by
        intro cs same
        rw [spelled, List.cons_append] at same
        cases same
        exact absurd digit (by decide)
      exact (expr_yields_intConst notOpen (parseIntConst_reads (of_decide_eq_true printable) follows)).mono
        fun e ⟨c, node, same⟩ => by rw [node, same]
  | uintConst _ => cases printable
  | stringLit _ => cases printable

end Entries

section Brackets

theorem ReadsBack.mono {p : Parser α} {P P' : α → Prop} {text : List Char}
    (reads : ReadsBack tables p P text) (weaker : ∀ a, P a → P' a) : ReadsBack tables p P' text :=
  ⟨reads.indented, fun z follows => (reads.reads z follows).mono weaker⟩

/-- An expression read as its form reads as the expression, whatever its position. -/
theorem ReadsBack.of_node {form : Form} {position : Position} {text : List Char}
    (reads : ReadsBack tables (expr tables) (fun e => e.node.erase = form.erase) text) :
    ReadsBack tables (expr tables) (·.erase = Expr.erase ⟨form, position⟩) text :=
  reads.mono fun e same => by
    obtain ⟨node, position'⟩ := e
    simp only [Expr.erase] at same ⊢
    rw [same]

theorem Expr.eraseList_eq_of_forall₂ :
    ∀ {es es' : List Expr}, List.Forall₂ (fun e' e => e'.erase = e.erase) es' es →
      Expr.eraseList es' = Expr.eraseList es
  | _, _, .nil => rfl
  | _, _, .cons head tail => by
      simp only [Expr.eraseList, head, Expr.eraseList_eq_of_forall₂ tail]

theorem Equation.eraseList_eq_of_forall₂ :
    ∀ {eqs eqs' : List (Annotated Equation)},
      List.Forall₂ (fun eq' eq => eq'.node.erase = eq.node.erase) eqs' eqs →
        Equation.eraseList eqs' = Equation.eraseList eqs
  | _, _, .nil => rfl
  | ⟨_, _⟩ :: _, ⟨_, _⟩ :: _, .cons head tail => by
      simp only [Equation.eraseList]
      rw [head, Equation.eraseList_eq_of_forall₂ tail]

/-- A call reads back: the name, then the arguments up to the closing bracket. -/
theorem expr_reads_call {fn : Ident} {params : List Expr} {texts : List (List Char)}
    (valid : validIdent tables fn.value = true)
    (items : List.Forall₂ (fun e text => ReadsBack tables (expr tables) (·.erase = e.erase) text)
      params texts) :
    ReadsBack tables (expr tables) (fun e => e.node.erase = (Form.app (.mk fn params)).erase)
      ('(' :: fn.value ++ [' '] ++ List.intercalate [' '] texts ++ [')']) := by
  refine ReadsBack.of_solid ⟨'(', _, rfl, by decide, by decide⟩ fun z follows => ?_
  have blank : Chars.isWhitespace ' ' = true := by decide
  have nameSolid := Solid.of_validIdent valid
  have args := many_reads_back expr_progresses expr_fails_close (List.cons_ne_nil ' ' [])
    (by simpa using blank) items z
  have afterName : Continues tables (' ' :: (List.intercalate [' '] texts ++ ')' :: z)) :=
    continues_of_blank blank (joined_noComment (ReadsBack.indented_all items) z)
  have name := parseName_yields valid afterName
  rw [trim_cons_of_blank blank] at name
  have call : (parseCall tables (expr tables)).Yields
      (fn.value ++ ' ' :: (List.intercalate [' '] texts ++ ')' :: z))
      (fun form => form.erase = (Form.app (.mk fn params)).erase) (true || !params.isEmpty)
      (')' :: z) :=
    (name.and args).map _ fun pair ⟨sameName, sameArgs⟩ => by
      simp only [Form.erase, AppForm.erase, Positional.erase_eq_erase_iff.mpr sameName,
        Expr.eraseList_eq_of_forall₂ sameArgs]
  have shape : ('(' :: fn.value ++ [' '] ++ List.intercalate [' '] texts ++ [')']) ++ z =
      '(' :: (fn.value ++ ' ' :: (List.intercalate [' '] texts ++ ')' :: z)) := by
    simp
  have body : (choice [attempt (parseCall tables (expr tables)), attempt (parseDef tables (expr tables)),
      attempt (parseIf tables (expr tables)), attempt (parseLambda tables (expr tables)),
      attempt (parseLet tables (expr tables))]).Yields
      (trim (fn.value ++ ' ' :: (List.intercalate [' '] texts ++ ')' :: z)))
      (fun form => form.erase = (Form.app (.mk fn params)).erase) (true || !params.isEmpty) (')' :: z) := by
    rw [nameSolid.trim_append]
    exact call.attempt.or_left _
  rw [shape]
  exact expr_yields_bracketed (parens_yields_trim (nameSolid.noComment _) body follows.noComment)

/-- A function definition reads back: the call refuses the keyword, and the
definition reads the name and then the function. -/
theorem expr_reads_define {name : Ident} {fn : Function} {position : Position} {text : List Char}
    (level : Nat) (valid : validIdent tables name.value = true)
    (function : ReadsBack tables (parseFunction tables (expr tables)) (·.erase = fn.erase) text) :
    ReadsBack tables (expr tables)
      (fun e => e.node.erase = (Form.define (.function name ⟨fn, position⟩)).erase)
      (indent level ++ "(define ".toList ++ name.value ++ [' '] ++ text ++ "\n)".toList) := by
  have blank : Chars.isWhitespace ' ' = true := by decide
  have newline : Chars.isWhitespace '\n' = true := by decide
  have nameSolid := Solid.of_validIdent valid
  have shape : ∀ z, indent level ++ "(define ".toList ++ name.value ++ [' '] ++ text ++ "\n)".toList ++ z =
      indent level ++ '(' :: ("define".toList ++ ' ' :: (name.value ++ ' ' :: (text ++ '\n' :: ')' :: z))) := by
    intro z
    have spelled : "(define ".toList = '(' :: ("define".toList ++ [' ']) := rfl
    simp [spelled]
  have whole := shape []
  rw [List.append_nil] at whole
  refine ⟨⟨indent level, _, whole, indent_blank level, ⟨'(', _, rfl, by decide, by decide⟩⟩,
    fun z follows => ?_⟩
  rw [shape, trim_append_of_blank (indent_blank level), trim_cons_of_not_blank (by decide)]
  have afterKeyword : Continues tables (' ' :: (name.value ++ ' ' :: (text ++ '\n' :: ')' :: z))) :=
    continues_of_blank blank (nameSolid.noComment _)
  have afterName : Continues tables (' ' :: (text ++ '\n' :: ')' :: z)) :=
    continues_of_blank blank (function.indented.noComment _)
  have afterFunction : Continues tables ('\n' :: ')' :: z) := by
    refine continues_of_blank newline fun cs same => ?_
    rw [trim_cons_of_not_blank (by decide)] at same
    cases same
  have keywordRead := defKeyword_yields (.inl rfl) afterKeyword
  rw [trim_cons_of_blank blank, nameSolid.trim_append] at keywordRead
  have nameRead := parseName_yields valid afterName
  rw [trim_cons_of_blank blank] at nameRead
  have fnRead := function.reads _ afterFunction
  rw [trim_cons_of_blank newline, trim_cons_of_not_blank (by decide)] at fnRead
  have fnPos : (parseFnPos tables (expr tables)).Yields (trim (text ++ '\n' :: ')' :: z))
      (fun a => a.node.erase = fn.erase) true (')' :: z) :=
    Yields.withPosition fun _ => fnRead.map _ fun _ same => same
  have form : (functionForm tables (expr tables)).Yields
      (name.value ++ ' ' :: (text ++ '\n' :: ')' :: z))
      (fun d => d.erase = (DefForm.function name ⟨fn, position⟩).erase) (true || true) (')' :: z) :=
    (nameRead.and fnPos).map _ fun ⟨ident, ⟨fn', position'⟩⟩ ⟨sameName, sameFn⟩ => by
      simp only [DefForm.erase, Positional.erase_eq_erase_iff.mpr sameName]
      rw [sameFn]
  have defRead : (parseDef tables (expr tables)).Yields
      ("define".toList ++ ' ' :: (name.value ++ ' ' :: (text ++ '\n' :: ')' :: z)))
      (fun f => f.erase = (Form.define (.function name ⟨fn, position⟩)).erase) (true || (true || true))
      (')' :: z) :=
    (keywordRead.seqRight (form.or_left _)).map _ fun d same => by
      simp only [Form.erase, same]
  have callFails : (attempt (parseCall tables (expr tables))).Fails
      ("define".toList ++ ' ' :: (name.value ++ ' ' :: (text ++ '\n' :: ')' :: z))) false :=
    (((parseName_fails_of_defKeyword (.inl rfl) afterKeyword.boundary).bind _).map _).attempt
  have keywordSolid : Solid ("define".toList ++ ' ' :: (name.value ++ ' ' :: (text ++ '\n' :: ')' :: z))) :=
    ⟨'d', _, rfl, by decide, by decide⟩
  have openNoComment := keywordSolid.noComment []
  rw [List.append_nil] at openNoComment
  have body : (choice [attempt (parseCall tables (expr tables)), attempt (parseDef tables (expr tables)),
      attempt (parseIf tables (expr tables)), attempt (parseLambda tables (expr tables)),
      attempt (parseLet tables (expr tables))]).Yields
      (trim ("define".toList ++ ' ' :: (name.value ++ ' ' :: (text ++ '\n' :: ')' :: z))))
      (fun f => f.erase = (Form.define (.function name ⟨fn, position⟩)).erase) (true || (true || true))
      (')' :: z) := by
    rw [keywordSolid.trim_self]
    exact Yields.or_right callFails (defRead.attempt.or_left _)
  exact expr_yields_bracketed (parens_yields_trim openNoComment body follows.noComment)

end Brackets

section Functions

theorem isIdentStart_eq_false_of_isDigit {c : Char} (digit : c.isDigit = true) :
    isIdentStart tables c = false := by
  cases start : isIdentStart tables c with
  | false => rfl
  | true =>
      rw [isIdentStart_not_digit start] at digit
      cases digit

/-- A separator of a newline and an indentation is blank throughout. -/
theorem newline_indent_blank (level : Nat) :
    ∀ c ∈ '\n' :: indent level, Chars.isWhitespace c = true := by
  intro c member
  rcases List.mem_cons.mp member with rfl | tab
  · decide
  · exact indent_blank level c tab

theorem parseEquation_progresses {e : Parser Expr} (grows : e.NonGrowing) :
    (parseEquation tables e).Progresses :=
  Progresses.withPosition fun _ => (LanguageEnv.parens_progresses (language_lawful tables)
    (parsePattern_nonGrowing.and grows.many)).map _

theorem parseEquation_fails_close (e : Parser Expr) (z : List Char) :
    (parseEquation tables e).Fails (')' :: z) false :=
  Fails.withPosition fun _ => (LanguageEnv.parens_fails_of_head fun _ _ head => by
    cases head
    decide).map _

/-- The parser of one pattern element. -/
theorem patElement_reads {x : PatElement} (printable : x.printable tables = true) :
    ∃ text, x.toSexpr = some text ∧ ReadsBack tables
      (((parseName tables).map PatElement.name).or ((parseIntConst tables).map PatElement.lit))
      (·.erase = x.erase) text := by
  cases x with
  | name n =>
      refine ⟨n.value, rfl, ReadsBack.of_solid (Solid.of_validIdent printable) fun z follows => ?_⟩
      exact ((parseName_yields printable follows).map _ fun ident same => by
        simp only [PatElement.erase, Positional.erase_eq_erase_iff.mpr same]).or_left _
  | lit c =>
      obtain ⟨d, ds, spelled, digit⟩ := Literal.fmt_head printable
      refine ⟨c.fmt, rfl, ReadsBack.of_solid (spelled ▸ Solid.of_isDigit digit) fun z follows => ?_⟩
      have nameFails : ((parseName tables).map PatElement.name).Fails (c.fmt ++ z) false :=
        (parseName_fails_of_head fun d' ds' head => by
          rw [spelled, List.cons_append] at head
          cases head
          exact isIdentStart_eq_false_of_isDigit digit).map _
      cases c with
      | intConst k =>
          exact Yields.or_right nameFails ((parseIntConst_reads (of_decide_eq_true printable) follows).map
            _ fun _ same => by rw [same])
      | uintConst _ => cases printable
      | stringLit _ => cases printable
  | typed _ _ => cases printable
  | anything => cases printable

/-- A pattern prints as its elements in brackets and reads back. -/
theorem pattern_reads {pattern : Pattern} (printable : pattern.all (PatElement.printable tables) = true) :
    ∃ text, Pattern.toSexpr pattern = some text ∧
      ReadsBack tables (parsePattern tables) (·.map PatElement.erase = pattern.map PatElement.erase) text := by
  obtain ⟨texts, printed, items⟩ := mapM_some_of_forall fun x member =>
    patElement_reads (List.all_eq_true.mp printable x member)
  have blank : ∀ c ∈ [' '], Chars.isWhitespace c = true := fun c member => by
    rw [List.mem_singleton.mp member]
    decide
  have progress : (((parseName tables).map PatElement.name).or
      ((parseIntConst tables).map PatElement.lit)).Progresses :=
    (parseName_progresses.map _).or (parseIntConst_progresses.map _)
  have stop : ∀ z, (((parseName tables).map PatElement.name).or
      ((parseIntConst tables).map PatElement.lit)).Fails (')' :: z) false := fun z =>
    ((parseName_fails_of_head fun _ _ head => by
      cases head
      exact isIdentStart_of_ascii_refused (by decide) (by decide)).map _).or
    (((LanguageEnv.integer_fails fun _ _ head => by cases head; decide).map _).map _)
  refine ⟨'(' :: List.intercalate [' '] texts ++ [')'], by simp [Pattern.toSexpr, printed],
    ReadsBack.of_solid ⟨'(', _, rfl, by decide, by decide⟩ fun z follows => ?_⟩
  have read := many_reads_back progress stop (List.cons_ne_nil ' ' []) blank items z
  have shape : ('(' :: List.intercalate [' '] texts ++ [')']) ++ z =
      '(' :: (List.intercalate [' '] texts ++ ')' :: z) := by
    simp
  rw [shape]
  refine (parens_yields_trim (joined_noComment (ReadsBack.indented_all items) z) read
    follows.noComment).mono fun elements related => ?_
  have mapped : List.Forall₂ (· = ·) (elements.map PatElement.erase) (pattern.map PatElement.erase) :=
    List.forall₂_map_left_iff.mpr (List.forall₂_map_right_iff.mpr related)
  rwa [List.forall₂_eq_eq_eq] at mapped

/-- A type of the chain reads back from its text. -/
theorem type_reads {ty : Ty} (reads : ty.readsBack = true) :
    ∃ text, ty.fmt = some text ∧ ReadsBack tables (typeName tables) (· = ty) text := by
  obtain ⟨text, printed, solid, read⟩ := @typeName_reads_fmt tables _ reads
  exact ⟨text, printed, ReadsBack.of_solid solid read⟩

theorem typeName_fails_close (z : List Char) : (typeName tables).Fails (')' :: z) false :=
  typeName_fails_of_head fun _ _ head => by
    cases head
    exact ⟨by decide, by decide, by decide, by decide⟩

/-- A signature without constraints prints as an arrow and its type chain,
and reads back: the arrow, no constraint, then the types up to the bracket. -/
theorem signature_reads {sig : Signature} (printable : sig.printable = true) (level : Nat) :
    ∃ text, sig.toSexpr level = some text ∧ ReadsBack tables (parseSignature tables) (· = sig) text := by
  obtain ⟨constraints, typechain⟩ := sig
  simp only [Signature.printable, Signature.constraints_mk, Signature.typechain_mk,
    Bool.and_eq_true] at printable
  obtain ⟨⟨noConstraints, chained⟩, allRead⟩ := printable
  have nonempty : typechain ≠ [] := by
    rintro rfl
    cases chained
  obtain rfl : constraints = none := Option.isNone_iff_eq_none.mp noConstraints
  obtain ⟨texts, printed, items⟩ := mapM_some_of_forall fun ty member =>
    @type_reads tables ty (List.all_eq_true.mp allRead ty member)
  refine ⟨indent level ++ '(' :: '→' :: ' ' :: (List.intercalate [' '] texts ++ [')']),
    by simp [Signature.toSexpr, concatAll, printed, Chars.arrow],
    ⟨⟨indent level, _, rfl, indent_blank level, ⟨'(', _, rfl, by decide, by decide⟩⟩, fun z follows => ?_⟩⟩
  have shape : indent level ++ '(' :: '→' :: ' ' :: (List.intercalate [' '] texts ++ [')']) ++ z =
      indent level ++ '(' :: '→' :: ' ' :: (List.intercalate [' '] texts ++ ')' :: z) := by
    simp
  rw [shape, trim_append_of_blank (indent_blank level), trim_cons_of_not_blank (by decide)]
  have blank : Chars.isWhitespace ' ' = true := by decide
  have joinedNoComment : ∀ cs, trim (List.intercalate [' '] texts ++ ')' :: z) ≠ '#' :: cs :=
    joined_noComment (ReadsBack.indented_all items) z
  have typesRead := (many_reads_back typeName_progresses typeName_fails_close
    (List.cons_ne_nil ' ' []) (by simpa using blank) items z).many1_of_many typeName_progresses nonempty
  obtain ⟨c, cs, startsWith, head⟩ : ∃ c cs, trim (List.intercalate [' '] texts ++ ')' :: z) = c :: cs ∧
      (c.isAlpha = true ∨ c = '*' ∨ c = '@' ∨ c = '&') := by
    obtain ⟨tys, position', reply, -⟩ := typesRead SourcePosition.start
    obtain ⟨ty, c₁, middle, c₂, first, -, -⟩ := bind_eq_ok reply
    exact typeName_head first
  have notOpen : c ≠ '(' ∧ c ≠ '{' := by
    rcases head with alpha | rfl | rfl | rfl
    · constructor
      · rintro rfl
        exact absurd alpha (by decide)
      · rintro rfl
        exact absurd alpha (by decide)
    all_goals exact ⟨by decide, by decide⟩
  have constraintFails : (parseConstraint tables).Fails
      (trim (List.intercalate [' '] texts ++ ')' :: z)) false :=
    ((LanguageEnv.parens_fails_of_head fun d ds same => by
        rw [startsWith] at same
        cases same
        exact notOpen.1).map _).or
      ((LanguageEnv.braces_fails_of_head fun d ds same => by
        rw [startsWith] at same
        cases same
        exact notOpen.2).map _)
  have noConstraint := optional_yields_none (Fails.many1 constraintFails)
  have arrowFails : ((language tables).reservedOp "->".toList).Fails
      ('→' :: ' ' :: (List.intercalate [' '] texts ++ ')' :: z)) false :=
    reservedOp_fails_of_unmatched (cons_not_prefix_of_ne (by decide) : ¬['-', '>'] <+: _)
  have arrowRead : ((language tables).reservedOp Chars.arrow).Yields
      (Chars.arrow ++ ' ' :: (List.intercalate [' '] texts ++ ')' :: z)) (fun _ => True) true
      (trim (' ' :: (List.intercalate [' '] texts ++ ')' :: z))) :=
    reservedOp_yields (by decide) (fun _ _ head => by cases head; decide)
      (by rw [trim_cons_of_blank blank]; exact joinedNoComment)
  rw [trim_cons_of_blank blank] at arrowRead
  have arrowSolid : Solid ('→' :: ' ' :: (List.intercalate [' '] texts ++ ')' :: z)) :=
    ⟨'→', _, rfl, by decide, by decide⟩
  have openNoComment := arrowSolid.noComment []
  rw [List.append_nil] at openNoComment
  have body := ((Yields.or_right arrowFails arrowRead).seqRight noConstraint).and typesRead
  rw [← arrowSolid.trim_self] at body
  exact ((parens_yields_trim openNoComment body follows.noComment).map _ fun pair holds => by
    obtain ⟨isNone, same⟩ := holds
    rw [List.forall₂_eq_eq_eq] at same
    rw [isNone, same]).or_left _

/-- An equation reads back: its pattern, then its body up to the bracket. -/
theorem equation_reads {pattern : Pattern} {body : List Expr} (level : Nat) {patternText : List Char}
    {texts : List (List Char)}
    (patternReads : ReadsBack tables (parsePattern tables)
      (·.map PatElement.erase = pattern.map PatElement.erase) patternText)
    (items : List.Forall₂ (fun e text => ReadsBack tables (expr tables) (·.erase = e.erase) text)
      body texts) :
    ReadsBack tables (parseEquation tables (expr tables))
      (fun eq => eq.node.erase = (Equation.mk pattern body).erase)
      ('(' :: patternText ++ [' '] ++ List.intercalate ('\n' :: indent (level + 1)) texts ++ [')']) := by
  refine ReadsBack.of_solid ⟨'(', _, rfl, by decide, by decide⟩ fun z follows => ?_
  have blank : Chars.isWhitespace ' ' = true := by decide
  have afterPattern : Continues tables
      (' ' :: (List.intercalate ('\n' :: indent (level + 1)) texts ++ ')' :: z)) :=
    continues_of_blank blank (joined_noComment (ReadsBack.indented_all items) z)
  have patternRead := patternReads.reads _ afterPattern
  rw [trim_cons_of_blank blank] at patternRead
  have bodyRead := many_reads_back expr_progresses expr_fails_close (List.cons_ne_nil _ _)
    (newline_indent_blank (level + 1)) items z
  have shape : ('(' :: patternText ++ [' '] ++ List.intercalate ('\n' :: indent (level + 1)) texts ++
      [')']) ++ z =
      '(' :: (patternText ++ ' ' :: (List.intercalate ('\n' :: indent (level + 1)) texts ++ ')' :: z)) := by
    simp
  rw [shape]
  exact Yields.withPosition fun _ =>
    (parens_yields_trim (patternReads.indented.noComment _) (patternRead.and bodyRead)
      follows.noComment).map _ fun pair ⟨samePattern, sameBody⟩ => by
        simp only [Equation.erase, samePattern, Expr.eraseList_eq_of_forall₂ sameBody]

/-- A function reads back: the keyword `λ`, the signature, and the equations
up to the bracket, each on a line of its own. -/
theorem function_reads {sig : Signature} {equations : List (Annotated Equation)} (level : Nat)
    {sigText : List Char} {texts : List (List Char)}
    (signature : ReadsBack tables (parseSignature tables) (· = sig) sigText) (nonempty : equations ≠ [])
    (items : List.Forall₂ (fun eq text => ReadsBack tables (parseEquation tables (expr tables))
      (fun eq' => eq'.node.erase = eq.node.erase) text) equations texts) :
    ReadsBack tables (parseFunction tables (expr tables)) (·.erase = (Function.mk sig equations).erase)
      ('(' :: Chars.lambda ++ [' '] ++ sigText ++ ['\n'] ++ indent (level + 1) ++
        List.intercalate ('\n' :: indent (level + 1)) texts ++ [')']) := by
  refine ReadsBack.of_solid ⟨'(', _, rfl, by decide, by decide⟩ fun z follows => ?_
  have blank : Chars.isWhitespace ' ' = true := by decide
  have newline : Chars.isWhitespace '\n' = true := by decide
  have joinedNoComment :
      ∀ cs, trim (List.intercalate ('\n' :: indent (level + 1)) texts ++ ')' :: z) ≠ '#' :: cs :=
    joined_noComment (ReadsBack.indented_all items) z
  have progress : (parseEquation tables (expr tables)).Progresses :=
    parseEquation_progresses expr_nonGrowing
  have eqsRead := (many_reads_back progress (parseEquation_fails_close _) (List.cons_ne_nil _ _)
    (newline_indent_blank (level + 1)) items z).many1_of_many progress nonempty
  have afterSig : Continues tables ('\n' :: (indent (level + 1) ++
      (List.intercalate ('\n' :: indent (level + 1)) texts ++ ')' :: z))) := by
    refine continues_of_blank newline fun cs => ?_
    rw [trim_append_of_blank (indent_blank _)]
    exact joinedNoComment cs
  have sigRead := signature.reads _ afterSig
  rw [trim_cons_of_blank newline, trim_append_of_blank (indent_blank _)] at sigRead
  have afterLambda : Continues tables (' ' :: (sigText ++ '\n' :: (indent (level + 1) ++
      (List.intercalate ('\n' :: indent (level + 1)) texts ++ ')' :: z)))) :=
    continues_of_blank blank (signature.indented.noComment _)
  have lambdaRead : ((language tables).reserved Chars.lambda).Yields
      (Chars.lambda ++ ' ' :: (sigText ++ '\n' :: (indent (level + 1) ++
        (List.intercalate ('\n' :: indent (level + 1)) texts ++ ')' :: z))))
      (fun _ => True) true (trim (' ' :: (sigText ++ '\n' :: (indent (level + 1) ++
        (List.intercalate ('\n' :: indent (level + 1)) texts ++ ')' :: z))))) :=
    reserved_yields (by decide) afterLambda
  rw [trim_cons_of_blank blank] at lambdaRead
  have keywords : (choice [(language tables).reserved "fn".toList,
      (language tables).reserved "lambda".toList, (language tables).reserved Chars.lambda]).Yields
      ('λ' :: ' ' :: (sigText ++ '\n' :: (indent (level + 1) ++
        (List.intercalate ('\n' :: indent (level + 1)) texts ++ ')' :: z))))
      (fun _ => True) true (trim (sigText ++ '\n' :: (indent (level + 1) ++
        (List.intercalate ('\n' :: indent (level + 1)) texts ++ ')' :: z)))) := Yields.or_right
    (reserved_fails_of_unmatched (cons_not_prefix_of_ne (by decide) : ¬['f', 'n'] <+: _))
    (Yields.or_right (reserved_fails_of_unmatched
      (cons_not_prefix_of_ne (by decide) : ¬['l', 'a', 'm', 'b', 'd', 'a'] <+: _)) (lambdaRead.or_left _))
  have lambdaSolid : Solid ('λ' :: ' ' :: (sigText ++ '\n' :: (indent (level + 1) ++
      (List.intercalate ('\n' :: indent (level + 1)) texts ++ ')' :: z)))) :=
    ⟨'λ', _, rfl, by decide, by decide⟩
  have openNoComment := lambdaSolid.noComment []
  rw [List.append_nil] at openNoComment
  have shape : ('(' :: Chars.lambda ++ [' '] ++ sigText ++ ['\n'] ++ indent (level + 1) ++
      List.intercalate ('\n' :: indent (level + 1)) texts ++ [')']) ++ z =
      '(' :: ('λ' :: ' ' :: (sigText ++ '\n' :: (indent (level + 1) ++
        (List.intercalate ('\n' :: indent (level + 1)) texts ++ ')' :: z)))) := by
    simp [Chars.lambda]
  have fnRead : (((parseSignature tables).and (parseEquation tables (expr tables)).many1).map
      fun pair => Function.mk pair.1 pair.2).Yields
      (trim (sigText ++ '\n' :: (indent (level + 1) ++
        (List.intercalate ('\n' :: indent (level + 1)) texts ++ ')' :: z))))
      (·.erase = (Function.mk sig equations).erase) (true || !equations.isEmpty) (')' :: z) :=
    (sigRead.and eqsRead).map _ fun pair holds => by
      obtain ⟨sameSig, sameEqs⟩ := holds
      rw [sameSig]
      simp only [Function.erase, Equation.eraseList_eq_of_forall₂ sameEqs]
  have body := keywords.seqRight fnRead
  rw [← lambdaSolid.trim_self] at body
  rw [shape]
  exact parens_yields_trim openNoComment body follows.noComment

end Functions

section RoundTrip

mutual

theorem form_reads_back : ∀ (form : Form) (level : Nat), form.printable tables = true →
    ∃ text, form.toSexpr level = some text ∧
      ReadsBack tables (expr tables) (fun e => e.node.erase = form.erase) text
  | .define (.function name ⟨fn, position⟩), level, printable => by
      simp only [Form.printable, DefForm.printable, Bool.and_eq_true] at printable
      obtain ⟨text, printed, reads⟩ := function_reads_back fn level printable.2
      exact ⟨_, by simp [Form.toSexpr, DefForm.toSexpr, printed], expr_reads_define level printable.1 reads⟩
  | .app (.mk fn params), level, printable => by
      simp only [Form.printable, Bool.and_eq_true] at printable
      obtain ⟨texts, printed, reads⟩ := exprs_read_back params level printable.2
      exact ⟨_, by simp [Form.toSexpr, printed], expr_reads_call printable.1 reads⟩
  | .lit c, _, printable => ⟨_, rfl, expr_reads_lit printable⟩
  | .nameRef n, _, printable => ⟨_, rfl, expr_reads_nameRef printable⟩
  | .define (.topLevel ..), _, printable | .ifForm .., _, printable | .letForm _, _, printable
  | .lambda _, _, printable | .logical _, _, printable | .num _, _, printable => by
      simp [Form.printable, DefForm.printable] at printable

theorem expr_reads_back : ∀ (e : Expr) (level : Nat), e.printable tables = true →
    ∃ text, e.toSexpr level = some text ∧ ReadsBack tables (expr tables) (·.erase = e.erase) text
  | ⟨form, position⟩, level, printable => by
      obtain ⟨text, printed, reads⟩ := form_reads_back form level printable
      exact ⟨text, printed, reads.of_node⟩

theorem exprs_read_back : ∀ (es : List Expr) (level : Nat), Expr.printableList tables es = true →
    ∃ texts, Expr.toSexprList es level = some texts ∧
      List.Forall₂ (fun e text => ReadsBack tables (expr tables) (·.erase = e.erase) text) es texts
  | [], _, _ => ⟨[], rfl, .nil⟩
  | e :: es, level, printable => by
      simp only [Expr.printableList, Bool.and_eq_true] at printable
      obtain ⟨text, printed, reads⟩ := expr_reads_back e level printable.1
      obtain ⟨texts, printedRest, readsRest⟩ := exprs_read_back es level printable.2
      exact ⟨text :: texts, by simp [Expr.toSexprList, printed, printedRest], .cons reads readsRest⟩

theorem function_reads_back : ∀ (fn : Function) (level : Nat), fn.printable tables = true →
    ∃ text, fn.toSexpr level = some text ∧
      ReadsBack tables (parseFunction tables (expr tables)) (·.erase = fn.erase) text
  | .mk sig equations, level, printable => by
      simp only [Function.printable, Bool.and_eq_true] at printable
      obtain ⟨⟨sigPrintable, chained⟩, eqsPrintable⟩ := printable
      have nonempty : equations ≠ [] := by
        rintro rfl
        cases chained
      obtain ⟨sigText, sigPrinted, sigReads⟩ := @signature_reads tables sig sigPrintable level
      obtain ⟨texts, printed, reads⟩ := equations_read_back equations (level + 1) eqsPrintable
      exact ⟨_, by simp [Function.toSexpr, sigPrinted, printed], function_reads level sigReads nonempty reads⟩

theorem equation_reads_back : ∀ (eq : Equation) (level : Nat), eq.printable tables = true →
    ∃ text, eq.toSexpr level = some text ∧
      ReadsBack tables (parseEquation tables (expr tables)) (fun eq' => eq'.node.erase = eq.erase) text
  | .mk pattern body, level, printable => by
      simp only [Equation.printable, Bool.and_eq_true] at printable
      obtain ⟨patternText, patternPrinted, patternReads⟩ := pattern_reads printable.1
      obtain ⟨texts, printed, reads⟩ := exprs_read_back body (level + 1) printable.2
      exact ⟨_, by simp [Equation.toSexpr, patternPrinted, printed], equation_reads level patternReads reads⟩

theorem equations_read_back : ∀ (eqs : List (Annotated Equation)) (level : Nat),
    Equation.printableList tables eqs = true →
    ∃ texts, Equation.toSexprList eqs level = some texts ∧
      List.Forall₂ (fun eq text => ReadsBack tables (parseEquation tables (expr tables))
        (fun eq' => eq'.node.erase = eq.node.erase) text) eqs texts
  | [], _, _ => ⟨[], rfl, .nil⟩
  | ⟨eq, position⟩ :: eqs, level, printable => by
      simp only [Equation.printableList, Bool.and_eq_true] at printable
      obtain ⟨text, printed, reads⟩ := equation_reads_back eq level printable.1
      obtain ⟨texts, printedRest, readsRest⟩ := equations_read_back eqs level printable.2
      exact ⟨text :: texts, by simp [Equation.toSexprList, printed, printedRest], .cons reads readsRest⟩

end

/-- A text that `expr` reads back on its own is a module of one expression. -/
theorem parseModule_of_readsBack {P : Expr → Prop} {text : List Char}
    (reads : ReadsBack tables (expr tables) P text) :
    ∃ e, parseModule tables text = .ok [e] ∧ P e := by
  have noComment : ∀ cs, trim text ≠ '#' :: cs := by
    simpa using reads.indented.noComment []
  have blanks : (language tables).whiteSpace.Yields text (fun _ => True)
      (!(text.takeWhile Chars.isWhitespace).isEmpty) (trim text) :=
    whiteSpace_trim noComment
  have first := reads.reads [] continues_nil
  rw [List.append_nil, trim_nil] at first
  have last : (expr tables).many.Yields [] (List.Forall₂ (fun e (_ : Unit) => P e) · []) false [] :=
    (many_yields_nil expr_progresses expr_fails_nil).mono fun es empty => by simp [empty]
  have read : (expr tables).many1.Yields (trim text)
      (List.Forall₂ (fun e (_ : Unit) => P e) · [()]) (true || false) [] :=
    many1_yields first last
  obtain ⟨es, position', reply, related⟩ := (blanks.seqRight read) SourcePosition.start
  obtain ⟨e, rfl, holds⟩ : ∃ e, es = [e] ∧ P e := by
    cases related with
    | cons head tail =>
        cases tail
        exact ⟨_, rfl, head⟩
  exact ⟨e, by simp [parseModule, Parser.parse, reply, Except.map], holds⟩

/-- Texts each read back on its own, one to a line, make a module of as many
expressions: `parse_module` reads them all and stops at the end of the text. -/
theorem parseModule_of_readsBack_lines {es : List Expr} {texts : List (List Char)}
    (items : List.Forall₂ (fun e text => ReadsBack tables (expr tables) (·.erase = e.erase) text) es texts)
    (nonempty : es ≠ []) :
    ∃ es', parseModule tables (List.intercalate ['\n'] texts) = .ok es' ∧
      List.Forall₂ (fun e' e => e'.erase = e.erase) es' es := by
  have newline : ∀ c ∈ ['\n'], Chars.isWhitespace c = true := by simpa using (by decide : Chars.isWhitespace '\n' = true)
  obtain ⟨t, ts, rfl⟩ : ∃ t ts, texts = t :: ts := by
    cases items with
    | nil => exact absurd rfl nonempty
    | cons _ _ => exact ⟨_, _, rfl⟩
  obtain ⟨u, startsWith⟩ := intercalate_cons_append ['\n'] t ts []
  rw [List.append_nil] at startsWith
  have noComment : ∀ cs, trim (List.intercalate ['\n'] (t :: ts)) ≠ '#' :: cs := by
    rw [startsWith]
    exact (ReadsBack.indented_all items t (by simp)).noComment u
  have blanks : (language tables).whiteSpace.Yields (List.intercalate ['\n'] (t :: ts)) (fun _ => True)
      (!((List.intercalate ['\n'] (t :: ts)).takeWhile Chars.isWhitespace).isEmpty)
      (trim (List.intercalate ['\n'] (t :: ts))) :=
    whiteSpace_trim noComment
  have lines := many_yields_intercalate expr_progresses (fun _ => trim_append_of_blank newline)
    (@continues_nil tables) trim_nil expr_fails_nil
    (items.imp fun _ _ reads => ⟨reads.indented.continues_after (List.cons_ne_nil _ _) newline, reads.reads⟩)
  rw [List.append_nil] at lines
  obtain ⟨es', position', reply, related⟩ :=
    (blanks.seqRight (lines.many1_of_many expr_progresses nonempty)) SourcePosition.start
  exact ⟨es', by simp [parseModule, Parser.parse, reply, Except.map], related⟩

/-- A text determines, positions apart, every expression it reads back as:
`parse_module` reads one expression from it, equal to each once erased. -/
theorem erase_eq_of_readsBack {text : List Char} {e₁ e₂ : Expr}
    (reads₁ : ReadsBack tables (expr tables) (·.erase = e₁.erase) text)
    (reads₂ : ReadsBack tables (expr tables) (·.erase = e₂.erase) text) : e₁.erase = e₂.erase := by
  obtain ⟨e₁', parsed₁, erased₁⟩ := parseModule_of_readsBack reads₁
  obtain ⟨e₂', parsed₂, erased₂⟩ := parseModule_of_readsBack reads₂
  have parsedAlike : e₁' = e₂' := by simpa using parsed₁.symm.trans parsed₂
  rw [← erased₁, ← erased₂, parsedAlike]

/-- Printing an expression of the fragment and parsing the text gives the
expression back, positions apart: the text prints, and `parse_module` reads
exactly one expression from it. -/
theorem printed_expr_reads_back (tables : CharTables) (e : Expr) (printable : e.printable tables = true) :
    ∃ text, e.toSexpr 0 = some text ∧
      ∃ e', parseModule tables text = .ok [e'] ∧ e'.erase = e.erase := by
  obtain ⟨text, printed, reads⟩ := expr_reads_back e 0 printable
  exact ⟨text, printed, parseModule_of_readsBack reads⟩

/-- `(define f (λ (→ int int) ((x) x)))`, the identity on `int`, prints and
reads back. -/
theorem printed_define_reads_back :
    let e : Expr := ⟨.define (.function ⟨default, ['f']⟩
      ⟨.mk (.mk none [.prim .intSize, .prim .intSize])
        [⟨.mk [.name ⟨default, ['x']⟩] [⟨.nameRef (.owned ⟨default, ['x']⟩), default⟩], default⟩],
        default⟩), default⟩
    e.printable CharTables.ascii = true ∧ ∃ text, e.toSexpr 0 = some text ∧
      ∃ e', parseModule CharTables.ascii text = .ok [e'] ∧ e'.erase = e.erase := by
  intro e
  have printable : e.printable CharTables.ascii = true := by decide
  exact ⟨printable, printed_expr_reads_back CharTables.ascii e printable⟩

/-- Outside the fragment printing fails: `to_sexpr` has no arm for `if`, so
the conditional that `(if a b)` parses to does not print. -/
theorem parsed_if_not_printed :
    let condition : Expr := ⟨.nameRef (.owned ⟨⟨5, 1, 6⟩, ['a']⟩), ⟨5, 1, 6⟩⟩
    let ifClause : Expr := ⟨.nameRef (.owned ⟨⟨7, 1, 8⟩, ['b']⟩), ⟨7, 1, 8⟩⟩
    parseModule CharTables.ascii ['(', 'i', 'f', ' ', 'a', ' ', 'b', ')'] =
        .ok [⟨.ifForm condition ifClause none, ⟨1, 1, 2⟩⟩] ∧
      Expr.toSexpr ⟨.ifForm condition ifClause none, ⟨1, 1, 2⟩⟩ 0 = none :=
  ⟨rfl, rfl⟩

/-- Printing, parsing and printing again gives the first text: printing reads
no position, and the parse of a printed expression differs from it only in
positions. -/
theorem reprint_of_printable (tables : CharTables) {e : Expr} (printable : e.printable tables = true)
    {text : List Char} (printed : e.toSexpr 0 = some text) :
    ∃ e', parseModule tables text = .ok [e'] ∧ e'.toSexpr 0 = some text := by
  obtain ⟨text', printed', reads⟩ := expr_reads_back e 0 printable
  obtain rfl : text' = text := Option.some.inj (printed'.symm.trans printed)
  obtain ⟨e', parsed, same⟩ := parseModule_of_readsBack reads
  exact ⟨e', parsed, by rw [← Expr.toSexpr_erase e', same, Expr.toSexpr_erase, printed']⟩

theorem reprint_define :
    let e : Expr := ⟨.define (.function ⟨default, ['f']⟩
      ⟨.mk (.mk none [.prim .intSize, .prim .intSize])
        [⟨.mk [.name ⟨default, ['x']⟩] [⟨.nameRef (.owned ⟨default, ['x']⟩), default⟩], default⟩],
        default⟩), default⟩
    e.printable CharTables.ascii = true ∧
      e.toSexpr 0 = some "(define f (λ (→ int int)\n\t((x) x))\n)".toList ∧
      ∃ e', parseModule CharTables.ascii "(define f (λ (→ int int)\n\t((x) x))\n)".toList = .ok [e'] ∧
        e'.toSexpr 0 = some "(define f (λ (→ int int)\n\t((x) x))\n)".toList := by
  intro e
  have printable : e.printable CharTables.ascii = true := by decide
  have printed : e.toSexpr 0 = some "(define f (λ (→ int int)\n\t((x) x))\n)".toList := by decide
  exact ⟨printable, printed, reprint_of_printable CharTables.ascii printable printed⟩

/-- On the fragment printing is injective: two expressions that print the
same text are equal under the source's `PartialEq`. -/
theorem print_injective_of_printable (tables : CharTables) {e₁ e₂ : Expr}
    (printable₁ : e₁.printable tables = true) (printable₂ : e₂.printable tables = true)
    (same : e₁.toSexpr 0 = e₂.toSexpr 0) : e₁.erase = e₂.erase := by
  obtain ⟨text₁, printed₁, reads₁⟩ := expr_reads_back e₁ 0 printable₁
  obtain ⟨text₂, printed₂, reads₂⟩ := expr_reads_back e₂ 0 printable₂
  obtain rfl : text₁ = text₂ := Option.some.inj (printed₁.symm.trans (same.trans printed₂))
  exact erase_eq_of_readsBack reads₁ reads₂

theorem print_injective_positions :
    let e₁ : Expr := ⟨.nameRef (.owned ⟨⟨1, 1, 2⟩, ['x']⟩), ⟨1, 1, 2⟩⟩
    let e₂ : Expr := ⟨.nameRef (.owned ⟨default, ['x']⟩), default⟩
    e₁.printable CharTables.ascii = true ∧ e₂.printable CharTables.ascii = true ∧
      e₁.toSexpr 0 = e₂.toSexpr 0 ∧ e₁.erase = e₂.erase := by
  intro e₁ e₂
  have printable₁ : e₁.printable CharTables.ascii = true := by decide
  have printable₂ : e₂.printable CharTables.ascii = true := by decide
  have same : e₁.toSexpr 0 = e₂.toSexpr 0 := rfl
  exact ⟨printable₁, printable₂, same, print_injective_of_printable CharTables.ascii printable₁ printable₂ same⟩

end RoundTrip

section Lambda

/-- The text of a signature starts, after its indentation, with a bracket and
an arrow: `⇒` before constraints, `→` before the type chain. -/
theorem Signature.toSexpr_head {sig : Signature} {level : Nat} {text : List Char}
    (printed : sig.toSexpr level = some text) :
    ∃ c rest, text = indent level ++ '(' :: c :: rest ∧ (c = '⇒' ∨ c = '→') := by
  obtain ⟨constraints, typechain⟩ := sig
  cases chain : concatAll Ty.fmt typechain with
  | none =>
      cases constraints <;> simp [Signature.toSexpr, chain] at printed
  | some chainText =>
      cases constraints with
      | none =>
          simp [Signature.toSexpr, chain] at printed
          exact ⟨'→', _, printed.symm, .inr rfl⟩
      | some cs =>
          cases constraintsText : concatAll Constraint.fmt cs with
          | none => simp [Signature.toSexpr, constraintsText] at printed
          | some body =>
              simp [Signature.toSexpr, chain, constraintsText] at printed
              exact ⟨'⇒', _, printed.symm, .inl rfl⟩

/-- `identifier` refuses the keyword `λ`, whether or not the tables count it
as a letter. -/
theorem identifier_fails_on_lambda (r : List Char) :
    (language tables).identifier.Fails ('λ' :: ' ' :: r) false := by
  have ends : (language tables).ident.rest.Fails (' ' :: r) false :=
    identRest_fails fun c cs head => by
      cases head
      rw [isIdentRest_of_ascii (by decide)]
      decide
  cases start : isIdentStart tables 'λ' with
  | true =>
      have refused : (language tables).identifier.Fails (['λ'] ++ ' ' :: r) false :=
        LanguageEnv.identifier_fails_of_reserved (language_lawful tables) (identStart_yields start _)
          (fun _ member => absurd member List.not_mem_nil) ends
          (by show ['λ'] ∈ reservedWords; decide)
      exact refused
  | false =>
      exact LanguageEnv.identifier_fails_of_start (identStart_fails fun c cs head => by
        cases head
        exact start)

/-- Inside its bracket `parse_function` wants a keyword; at the arrow of a
signature it fails, once the bracket is read. -/
theorem parseFunction_fails_of_arrow (e : Parser Expr) {c : Char} {rest : List Char}
    (arrow : c = '⇒' ∨ c = '→') : (parseFunction tables e).Fails ('(' :: c :: rest) true := by
  have notF : 'f' ≠ c := by rcases arrow with rfl | rfl <;> decide
  have notL : 'l' ≠ c := by rcases arrow with rfl | rfl <;> decide
  have notLambda : 'λ' ≠ c := by rcases arrow with rfl | rfl <;> decide
  have solid : Solid (c :: rest) :=
    ⟨c, rest, rfl, by rcases arrow with rfl | rfl <;> decide, by rcases arrow with rfl | rfl <;> decide⟩
  have keywordFails : (choice [(language tables).reserved "fn".toList,
      (language tables).reserved "lambda".toList, (language tables).reserved Chars.lambda]).Fails
      (c :: rest) false := by
    apply Fails.choice
    intro q member
    simp only [List.mem_cons, List.not_mem_nil, or_false] at member
    rcases member with rfl | rfl | rfl
    · exact reserved_fails_of_unmatched (cons_not_prefix_of_ne notF : ¬['f', 'n'] <+: _)
    · exact reserved_fails_of_unmatched
        (cons_not_prefix_of_ne notL : ¬['l', 'a', 'm', 'b', 'd', 'a'] <+: _)
    · exact reserved_fails_of_unmatched (cons_not_prefix_of_ne notLambda : ¬['λ'] <+: _)
  exact LanguageEnv.parens_fails_of_inner (whiteSpace_solid solid) (keywordFails.bind _)

/-- A printed lambda makes a module that `parse_module` refuses, whatever the
function: `parse_lambda` reads the keyword `λ` and then fails at the bracket
of the signature, after consuming it. -/
theorem lambda_print_refused (tables : CharTables) {fn : Function} {level : Nat} {text : List Char}
    (printed : (Form.lambda fn).toSexpr level = some text) : parseModule tables text = .error () := by
  obtain ⟨sig, equations⟩ := fn
  obtain ⟨sigText, sigPrinted, rest, spelled⟩ : ∃ sigText, sig.toSexpr level = some sigText ∧
      ∃ rest, text = '(' :: 'λ' :: ' ' :: (sigText ++ rest) := by
    simp only [Form.toSexpr, Function.toSexpr] at printed
    cases sigResult : sig.toSexpr level with
    | none => simp [sigResult] at printed
    | some sigText =>
        cases eqsResult : Equation.toSexprList equations (level + 1) with
        | none => simp [sigResult, eqsResult] at printed
        | some eqTexts =>
            simp [sigResult, eqsResult] at printed
            exact ⟨sigText, rfl, _, printed.symm⟩
  obtain ⟨c, sigRest, sigSpelled, arrow⟩ := Signature.toSexpr_head sigPrinted
  have blank : Chars.isWhitespace ' ' = true := by decide
  have opened : trim (sigText ++ rest) = '(' :: c :: (sigRest ++ rest) := by
    rw [sigSpelled, List.append_assoc, trim_append_of_blank (indent_blank level),
      List.cons_append, trim_cons_of_not_blank (by decide), List.cons_append]
  have afterKeyword : Continues tables (' ' :: (sigText ++ rest)) := by
    refine continues_of_blank blank fun cs same => ?_
    rw [opened] at same
    cases same
  have keywordRead : ((language tables).reserved Chars.lambda).Yields
      (Chars.lambda ++ ' ' :: (sigText ++ rest)) (fun _ => True) true
      (trim (' ' :: (sigText ++ rest))) :=
    reserved_yields (by decide) afterKeyword
  rw [trim_cons_of_blank blank, opened] at keywordRead
  have lambdaFails : (parseLambda tables (expr tables)).Fails ('λ' :: ' ' :: (sigText ++ rest)) true :=
    ((Yields.or_right (reserved_fails_of_unmatched
      (cons_not_prefix_of_ne (by decide) : ¬['l', 'a', 'm', 'b', 'd', 'a'] <+: _)) keywordRead).bind_fails
        fun _ _ => parseFunction_fails_of_arrow _ arrow).map _
  have unmatched : ∀ w ws, w ≠ 'λ' → ¬(w :: ws) <+: 'λ' :: ' ' :: (sigText ++ rest) :=
    fun _ _ differs => cons_not_prefix_of_ne differs
  have bracketedFails : (choice [attempt (parseCall tables (expr tables)),
      attempt (parseDef tables (expr tables)), attempt (parseIf tables (expr tables)),
      attempt (parseLambda tables (expr tables)), attempt (parseLet tables (expr tables))]).Fails
      ('λ' :: ' ' :: (sigText ++ rest)) false :=
    bracketed_fails _
      (parseCall_fails_of_name _ (Fails.withPosition fun _ => (identifier_fails_on_lambda _).map _))
      (parseDef_fails_of_unmatched _ (unmatched 'd' ['e', 'f'] (by decide))
        (unmatched 'd' ['e', 'f', 'i', 'n', 'e'] (by decide)))
      (parseIf_fails_of_unmatched _ (unmatched 'i' ['f'] (by decide))) lambdaFails
      (parseLet_fails_of_unmatched _ (unmatched 'l' ['e', 't'] (by decide)))
  have lambdaSolid : Solid ('λ' :: ' ' :: (sigText ++ rest)) := ⟨'λ', _, rfl, by decide, by decide⟩
  rw [spelled]
  exact parseModule_refuses ⟨'(', _, rfl, by decide, by decide⟩ (expr_fails_bracketed lambdaSolid bracketedFails)

theorem lambda_print_refused_identity :
    let fn : Function := .mk (.mk none [.prim .intSize, .prim .intSize])
      [⟨.mk [.name ⟨default, ['x']⟩] [⟨.nameRef (.owned ⟨default, ['x']⟩), default⟩], default⟩]
    (Form.lambda fn).toSexpr 0 = some "(λ (→ int int)\n\t((x) x))".toList ∧
      parseModule CharTables.ascii "(λ (→ int int)\n\t((x) x))".toList = .error () := by
  intro fn
  have printed : (Form.lambda fn).toSexpr 0 = some "(λ (→ int int)\n\t((x) x))".toList := by decide
  exact ⟨printed, lambda_print_refused CharTables.ascii printed⟩

end Lambda

section Let

/-- The text of a printed let form: its indentation, a bracket, the keyword,
a blank and a square bracket. -/
theorem LetForm.toSexpr_head {form : LetForm} {level : Nat} {text : List Char}
    (printed : form.toSexpr level = some text) :
    ∃ keyword rest, (keyword = "let".toList ∨ keyword = "letrec".toList ∨ keyword = "let*".toList) ∧
      text = indent level ++ '(' :: (keyword ++ ' ' :: '[' :: rest) := by
  have bracket : " [".toList = [' ', '['] := rfl
  have shape : ∀ {keyword : List Char} {bindings body : Option (List (List Char))},
      LetForm.format keyword bindings body level = some text →
        ∃ rest, text = indent level ++ '(' :: (keyword ++ ' ' :: '[' :: rest) := by
    intro keyword bindings body formatted
    cases bindings with
    | none => simp [LetForm.format] at formatted
    | some bs =>
        cases body with
        | none => simp [LetForm.format] at formatted
        | some es =>
            simp only [LetForm.format, Option.pure_def, Option.bind_eq_bind, Option.bind_some,
              Option.some.injEq] at formatted
            refine ⟨List.intercalate ['\n'] bs ++ "]\n".toList ++ List.intercalate [' '] es ++ [')'], ?_⟩
            rw [← formatted, bracket]
            simp only [List.cons_append, List.append_assoc, List.nil_append]
  cases form with
  | letIn bindings body =>
      obtain ⟨rest, spelled⟩ := shape printed
      exact ⟨_, rest, .inl rfl, spelled⟩
  | letRec bindings body =>
      obtain ⟨rest, spelled⟩ := shape printed
      exact ⟨_, rest, .inr (.inl rfl), spelled⟩
  | letSplat bindings body =>
      obtain ⟨rest, spelled⟩ := shape printed
      exact ⟨_, rest, .inr (.inr rfl), spelled⟩
  | invocation procId init body => simp [LetForm.toSexpr] at printed

/-- `parse_name` reads a let keyword whole, `*` included, and refuses it. -/
theorem parseName_fails_of_letKeyword {keyword rest : List Char}
    (isLet : keyword = "let".toList ∨ keyword = "letrec".toList ∨ keyword = "let*".toList) :
    (parseName tables).Fails (keyword ++ ' ' :: rest) false := by
  have ends : ∀ d ds, ' ' :: rest = d :: ds → isIdentRest tables d = false := by
    intro d ds head
    cases head
    rw [isIdentRest_of_ascii (by decide)]
    decide
  have continues : ∀ d ∈ ['e', 't', 'r', 'e', 'c', '*'], isIdentRest tables d = true := by
    intro d member
    simp only [List.mem_cons, List.not_mem_nil, or_false] at member
    rcases member with rfl | rfl | rfl | rfl | rfl | rfl
    all_goals
      rw [isIdentRest_of_ascii (by decide)]
      decide
  have start : isIdentStart tables 'l' = true := isIdentStart_of_isAlpha (by decide)
  have refuse : ∀ cs, 'l' :: cs ∈ reservedWords → cs ⊆ ['e', 't', 'r', 'e', 'c', '*'] →
      (parseName tables).Fails ('l' :: cs ++ ' ' :: rest) false :=
    fun cs isReserved within =>
      parseName_fails_of_reserved isReserved start (fun d member => continues d (within member)) ends
  rcases isLet with rfl | rfl | rfl
  exacts [refuse ['e', 't'] (by decide) (by decide),
    refuse ['e', 't', 'r', 'e', 'c'] (by decide) (by decide), refuse ['e', 't', '*'] (by decide) (by decide)]

/-- `parse_let` fails on a printed let keyword: after `let` the bracket is
square, and `letrec` and `let*` are not the word `let`. -/
theorem parseLet_fails_of_letKeyword (e : Parser Expr) {keyword rest : List Char}
    (isLet : keyword = "let".toList ∨ keyword = "letrec".toList ∨ keyword = "let*".toList) :
    ∃ consumed, (parseLet tables e).Fails (keyword ++ ' ' :: '[' :: rest) consumed := by
  rcases isLet with rfl | rfl | rfl
  · have follows : Continues tables (' ' :: '[' :: rest) :=
      continues_of_blank (by decide) fun cs same => by
        rw [trim_cons_of_not_blank (by decide)] at same
        cases same
    have keywordRead := @reserved_yields tables _ "let".toList (by decide) follows
    rw [trim_cons_of_blank (by decide), trim_cons_of_not_blank (by decide)] at keywordRead
    have unopened : ((language tables).parens (many ((language tables).parens (parseBinding tables e)))).Fails
        ('[' :: rest) false :=
      LanguageEnv.parens_fails_of_head fun d ds head => by
        cases head
        decide
    exact ⟨true, ((((keywordRead.bind_fails fun _ _ => unopened).bind _).map _).or_left _).map _⟩
  · have spelled : "letrec".toList ++ ' ' :: '[' :: rest = "let".toList ++ 'r' :: ("ec".toList ++ ' ' :: '[' :: rest) :=
      rfl
    rw [spelled]
    exact ⟨false, parseLet_fails_of_keyword e
      (reserved_fails_of_continues _ (isIdentRest_of_isAlpha (by decide)))⟩
  · have spelled : "let*".toList ++ ' ' :: '[' :: rest = "let".toList ++ '*' :: (' ' :: '[' :: rest) := rfl
    rw [spelled]
    have star : isIdentRest tables '*' = true := by
      rw [isIdentRest_of_ascii (by decide)]
      decide
    exact ⟨false, parseLet_fails_of_keyword e (reserved_fails_of_continues _ star)⟩

/-- A printed let form makes a module that `parse_module` refuses, whatever
its bindings and body and at every indentation: inside the bracket the call
refuses the reserved keyword, `parse_let` fails at the keyword or at the
square bracket, and no other form starts with `l` followed by `e`. -/
theorem let_print_refused (tables : CharTables) {form : LetForm} {level : Nat} {text : List Char}
    (printed : (Form.letForm form).toSexpr level = some text) : parseModule tables text = .error () := by
  obtain ⟨keyword, rest, isLet, spelled⟩ := LetForm.toSexpr_head printed
  obtain ⟨tail, startsWithLe⟩ : ∃ tail, keyword ++ ' ' :: '[' :: rest = 'l' :: 'e' :: tail := by
    rcases isLet with rfl | rfl | rfl
    all_goals exact ⟨_, rfl⟩
  have unmatched : ∀ w ws, w ≠ 'l' → ¬(w :: ws) <+: keyword ++ ' ' :: '[' :: rest := by
    intro w ws differs
    rw [startsWithLe]
    exact cons_not_prefix_of_ne differs
  have notLambda : ¬"lambda".toList <+: keyword ++ ' ' :: '[' :: rest := by
    rw [startsWithLe]
    show ¬['l', 'a', 'm', 'b', 'd', 'a'] <+: 'l' :: 'e' :: tail
    exact fun isPrefix => cons_not_prefix_of_ne (by decide) (List.cons_prefix_cons.mp isPrefix).2
  obtain ⟨consumed, letFails⟩ := parseLet_fails_of_letKeyword (expr tables) isLet
  have bracketedFails : (choice [attempt (parseCall tables (expr tables)),
      attempt (parseDef tables (expr tables)), attempt (parseIf tables (expr tables)),
      attempt (parseLambda tables (expr tables)), attempt (parseLet tables (expr tables))]).Fails
      (keyword ++ ' ' :: '[' :: rest) false :=
    bracketed_fails _ (parseCall_fails_of_name _ (parseName_fails_of_letKeyword isLet))
      (parseDef_fails_of_unmatched _ (unmatched 'd' ['e', 'f'] (by decide))
        (unmatched 'd' ['e', 'f', 'i', 'n', 'e'] (by decide)))
      (parseIf_fails_of_unmatched _ (unmatched 'i' ['f'] (by decide)))
      (parseLambda_fails_of_unmatched _ notLambda (unmatched 'λ' [] (by decide))) letFails
  have innerSolid : Solid (keyword ++ ' ' :: '[' :: rest) := by
    rw [startsWithLe]
    exact ⟨'l', _, rfl, by decide, by decide⟩
  rw [spelled]
  exact parseModule_refuses_indented (indent_blank level) ⟨'(', _, rfl, by decide, by decide⟩
    (expr_fails_bracketed innerSolid bracketedFails)

theorem let_print_refused_empty :
    let form : LetForm := .letIn [] [⟨.nameRef (.owned ⟨default, ['x']⟩), default⟩]
    (Form.letForm form).toSexpr 0 = some "(let []\nx)".toList ∧
      parseModule CharTables.ascii "(let []\nx)".toList = .error () := by
  intro form
  have printed : (Form.letForm form).toSexpr 0 = some "(let []\nx)".toList := by decide
  exact ⟨printed, let_print_refused CharTables.ascii printed⟩

end Let

end Mnemosyne.Parser
