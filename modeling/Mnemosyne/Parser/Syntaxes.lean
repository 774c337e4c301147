import Mnemosyne.Parser.RoundTrip

namespace Mnemosyne.Parser

open Combine Combine.Parser Mnemosyne.Types Mnemosyne.Ast

/-! # Two spellings of constraints and signatures

`parse_constraint` tries `(=> C a …)` and then `{C => a …}`, and
`parse_signature` tries `(-> k… t₁ … tₙ)` and then `{k… t₁ -> … -> tₙ}`;
each arrow may also be written `⇒` or `→`.  The printer writes only the
prefix signature, so the infix spellings come only from source text.  Each
pair of spellings reads to the same value once positions are erased, with
constraints and types given by any texts that read back as them.  The items
of a spelling are separated by single blanks; a list is written with
`flatMap`, each text led by its blank (`(-> a b)`) or followed by it
(`{k₁ k₂ t}`). -/

variable {tables : CharTables}

/-- What follows a blank-led list: the blank before its first text, or the tail. -/
theorem led_continues {texts : List (List Char)} (indented : ∀ t ∈ texts, Indented t) {tail : List Char}
    (tailContinues : Continues tables tail) : Continues tables (texts.flatMap (' ' :: ·) ++ tail) := by
  cases texts with
  | nil => exact tailContinues
  | cons t ts =>
      simp only [List.flatMap_cons, List.cons_append, List.append_assoc]
      exact continues_of_blank (by decide) ((indented t (by simp)).noComment _)

/-- No comment starts a list of texts each followed by a blank, or the tail after it. -/
theorem followed_noComment {texts : List (List Char)} (indented : ∀ t ∈ texts, Indented t) {tail : List Char}
    (tailNoComment : ∀ cs, trim tail ≠ '#' :: cs) :
    ∀ cs, trim (texts.flatMap (· ++ [' ']) ++ tail) ≠ '#' :: cs := by
  cases texts with
  | nil => exact tailNoComment
  | cons t ts =>
      simp only [List.flatMap_cons, List.append_assoc]
      exact (indented t (by simp)).noComment _

/-- The blank before the first of blank-led texts is read, up to the text. -/
theorem trim_led_cons (t : List Char) (ts : List (List Char)) (tail : List Char) :
    trim ((t :: ts).flatMap (' ' :: ·) ++ tail) = trim (t ++ (ts.flatMap (' ' :: ·) ++ tail)) := by
  simp only [List.flatMap_cons, List.cons_append, List.append_assoc,
    trim_cons_of_blank (by decide : Chars.isWhitespace ' ' = true)]

section Lists

variable {α β : Type} {p : Parser α} {R : α → β → Prop} {tail : List Char}

/-- `many` over texts each led by a blank, up to a tail it refuses. -/
theorem many_reads_led (progress : p.Progresses) (tailContinues : Continues tables tail)
    (stop : p.Fails (trim tail) false) :
    ∀ {xs : List β} {texts : List (List Char)},
      List.Forall₂ (fun x text => ReadsBack tables p (R · x) text) xs texts →
      p.many.Yields (trim (texts.flatMap (' ' :: ·) ++ tail)) (List.Forall₂ R · xs) (!xs.isEmpty)
        (trim tail)
  | _, _, .nil => (many_yields_nil progress stop).mono fun _ empty => by rw [empty]; exact .nil
  | _ :: _, text :: texts, .cons item items => by
      have follows := led_continues (ReadsBack.indented_all items) tailContinues
      rw [trim_led_cons]
      exact many_yields_cons progress (item.reads _ follows) (many_reads_led progress tailContinues stop items)

/-- `many` over texts each followed by a blank, up to a tail it refuses. -/
theorem many_reads_followed (progress : p.Progresses) (tailNoComment : ∀ cs, trim tail ≠ '#' :: cs)
    (stop : p.Fails (trim tail) false) :
    ∀ {xs : List β} {texts : List (List Char)},
      List.Forall₂ (fun x text => ReadsBack tables p (R · x) text) xs texts →
      p.many.Yields (trim (texts.flatMap (· ++ [' ']) ++ tail)) (List.Forall₂ R · xs) (!xs.isEmpty)
        (trim tail)
  | _, _, .nil => (many_yields_nil progress stop).mono fun _ empty => by rw [empty]; exact .nil
  | _ :: _, text :: texts, .cons item items => by
      have blank : Chars.isWhitespace ' ' = true := by decide
      have noComment := followed_noComment (ReadsBack.indented_all items) tailNoComment
      have head := item.reads _ (continues_of_blank blank noComment)
      rw [trim_cons_of_blank blank] at head
      have shape : (text :: texts).flatMap (· ++ [' ']) ++ tail =
          text ++ ' ' :: (texts.flatMap (· ++ [' ']) ++ tail) := by
        simp
      rw [shape]
      exact many_yields_cons progress head (many_reads_followed progress tailNoComment stop items)

end Lists

/-- Blank-led texts start with a blank, and no comment stands after it. -/
theorem led_blank {texts : List (List Char)} (nonempty : texts ≠ []) (indented : ∀ t ∈ texts, Indented t)
    (tail : List Char) : ∃ u, texts.flatMap (' ' :: ·) ++ tail = ' ' :: u ∧ ∀ cs, trim u ≠ '#' :: cs := by
  obtain ⟨t, ts, rfl⟩ := List.exists_cons_of_ne_nil nonempty
  exact ⟨t ++ (ts.flatMap (' ' :: ·) ++ tail), by simp, (indented t (by simp)).noComment _⟩

/-- An operator with an ASCII and a Unicode spelling is read in either one. -/
theorem reservedOp_either_yields {ascii unicode op rest : List Char} (spelled : op = ascii ∨ op = unicode)
    (asciiOp : ascii ≠ []) (unicodeOp : unicode ≠ []) (heads : ascii.head? ≠ unicode.head?)
    (ends : ∀ c cs, rest = c :: cs → Chars.ops.contains c = false)
    (noComment : ∀ cs, trim rest ≠ '#' :: cs) :
    (((language tables).reservedOp ascii).or ((language tables).reservedOp unicode)).Yields
      (op ++ rest) (fun _ => True) true (trim rest) := by
  rcases spelled with rfl | rfl
  · exact (reservedOp_yields asciiOp ends noComment).or_left _
  · obtain ⟨a, as, rfl⟩ := List.exists_cons_of_ne_nil asciiOp
    obtain ⟨u, us, rfl⟩ := List.exists_cons_of_ne_nil unicodeOp
    have distinct : ¬(a :: as) <+: (u :: us) ++ rest :=
      cons_not_prefix_of_ne fun same => heads (congrArg some same)
    exact Yields.or_right (reservedOp_fails_of_unmatched distinct) (reservedOp_yields unicodeOp ends noComment)

/-- A blank ends an operator. -/
theorem ops_ends_of_led {rest u : List Char} (led : rest = ' ' :: u) :
    ∀ c cs, rest = c :: cs → Chars.ops.contains c = false := by
  intro c cs head
  rw [led] at head
  cases head
  decide

section Constraints

/-- The constraint `typeclass generics…` with its positions erased. -/
def namedConstraint (typeclass : List Char) (generics : List (List Char)) : Constraint :=
  ⟨⟨default, typeclass⟩, generics.map fun g => ⟨default, g⟩⟩

theorem names_erase {names : List Ident} {texts : List (List Char)}
    (related : List.Forall₂ (·.value = ·) names texts) :
    names.map Positional.erase = texts.map fun g => ⟨default, g⟩ := by
  induction related with
  | nil => rfl
  | cons same _ erased => simp only [List.map_cons, Positional.erase, same, erased]

/-- Valid names each led by a blank, up to a closing bracket. -/
theorem names_read {names : List (List Char)} (valid : ∀ name ∈ names, validIdent tables name = true)
    (nonempty : names ≠ []) {close : Char} {z : List Char} (follows : Continues tables (close :: z))
    (notBlank : Chars.isWhitespace close = false) :
    (many1 (parseName tables)).Yields (trim (names.flatMap (' ' :: ·) ++ close :: z))
      (List.Forall₂ (·.value = ·) · names) true (close :: z) := by
  have items : List.Forall₂ (fun name text => ReadsBack tables (parseName tables) (·.value = name) text)
      names names :=
    List.forall₂_same.mpr fun name member =>
      ReadsBack.of_solid (Solid.of_validIdent (valid name member))
        fun _ after => parseName_yields (valid name member) after
  have notStart : isIdentStart tables close = false := by
    cases start : isIdentStart tables close with
    | false => rfl
    | true =>
        have continues := isIdentRest_of_isIdentStart start
        rw [follows.boundary close z rfl] at continues
        cases continues
  have stop : (parseName tables).Fails (trim (close :: z)) false := by
    rw [trim_cons_of_not_blank notBlank]
    exact parseName_fails_of_head fun c cs head => by
      cases head
      exact notStart
  have read := many_reads_led parseName_progresses follows stop items
  rw [trim_cons_of_not_blank notBlank] at read
  obtain ⟨name, others, rfl⟩ := List.exists_cons_of_ne_nil nonempty
  exact read.many1_of_many parseName_progresses nonempty

/-- A fat arrow followed by blank-led names. -/
theorem fatArrow_yields {arrow : List Char} (isArrow : arrow = "=>".toList ∨ arrow = Chars.fatArrow)
    {names : List (List Char)} (valid : ∀ name ∈ names, validIdent tables name = true)
    (nonempty : names ≠ []) (tail : List Char) :
    (((language tables).reservedOp "=>".toList).or ((language tables).reservedOp Chars.fatArrow)).Yields
      (arrow ++ (names.flatMap (' ' :: ·) ++ tail)) (fun _ => True) true
      (trim (names.flatMap (' ' :: ·) ++ tail)) := by
  obtain ⟨u, led, noComment⟩ := led_blank nonempty
    (fun name member => (Solid.of_validIdent (valid name member)).indented) tail
  have blankTrim : trim (' ' :: u) = trim u := trim_cons_of_blank (by decide)
  refine reservedOp_either_yields isArrow (by decide) (by decide) (by decide) (ops_ends_of_led led) ?_
  rw [led, blankTrim]
  exact noComment

/-- `(=> C a …)`: the arrow, the class, then its generics. -/
theorem prefixConstraint_reads {arrow typeclass : List Char} {generics : List (List Char)}
    (isArrow : arrow = "=>".toList ∨ arrow = Chars.fatArrow) (validClass : validIdent tables typeclass = true)
    (valid : ∀ g ∈ generics, validIdent tables g = true) (nonempty : generics ≠ []) :
    ReadsBack tables (parseConstraint tables) (·.erase = namedConstraint typeclass generics)
      ('(' :: arrow ++ (typeclass :: generics).flatMap (' ' :: ·) ++ [')']) := by
  refine ReadsBack.of_solid ⟨'(', _, rfl, by decide, by decide⟩ fun z follows => ?_
  have blank : Chars.isWhitespace ' ' = true := by decide
  have names : ∀ name ∈ typeclass :: generics, validIdent tables name = true := by
    intro name member
    rcases List.mem_cons.mp member with rfl | later
    exacts [validClass, valid name later]
  have arrowRead := fatArrow_yields isArrow names (List.cons_ne_nil _ _) (')' :: z)
  have genericsRead := names_read valid nonempty (continues_close z) (by decide)
  obtain ⟨u, led, noComment⟩ := led_blank nonempty
    (fun name member => (Solid.of_validIdent (valid name member)).indented) (')' :: z)
  have classFollows : Continues tables (generics.flatMap (' ' :: ·) ++ ')' :: z) := by
    rw [led]
    exact continues_of_blank blank noComment
  have classRead := parseName_yields validClass classFollows
  have classFirst : trim ((typeclass :: generics).flatMap (' ' :: ·) ++ ')' :: z) =
      typeclass ++ (generics.flatMap (' ' :: ·) ++ ')' :: z) := by
    simp only [List.flatMap_cons, List.cons_append, List.append_assoc, trim_cons_of_blank blank,
      (Solid.of_validIdent validClass).trim_append]
  rw [classFirst] at arrowRead
  have body := (arrowRead.seqRight classRead).and genericsRead
  have arrowSolid : Solid (arrow ++ ((typeclass :: generics).flatMap (' ' :: ·) ++ ')' :: z)) := by
    rcases isArrow with rfl | rfl
    all_goals exact ⟨_, _, rfl, by decide, by decide⟩
  rw [← arrowSolid.trim_self] at body
  have bracketed : ((language tables).parens _).Yields _ _ true (trim z) :=
    parens_yields_trim (by simpa using arrowSolid.noComment []) body follows.noComment
  have spelled : ('(' :: arrow ++ (typeclass :: generics).flatMap (' ' :: ·) ++ [')']) ++ z =
      '(' :: (arrow ++ ((typeclass :: generics).flatMap (' ' :: ·) ++ ')' :: z)) := by
    simp only [List.cons_append, List.append_assoc, List.nil_append]
  rw [spelled]
  unfold parseConstraint parsePrefixConstraint
  exact (bracketed.map _ fun pair ⟨named, read⟩ => by
    simp only [Constraint.erase, namedConstraint, Positional.erase, named, names_erase read]).or_left _

end Constraints

section Signatures

/-- What `optional(many1(constraint()))` returns for a list of constraints:
`None` for none. -/
def readConstraints (ks : List Constraint) : Option (List Constraint) :=
  if ks.isEmpty then none else some ks

theorem map_erase_of_forall₂ {found ks : List Constraint}
    (related : List.Forall₂ (fun a k => a.erase = k.erase) found ks) :
    found.map Constraint.erase = ks.map Constraint.erase := by
  induction related with
  | nil => rfl
  | cons same _ erased => simp only [List.map_cons, same, erased]

theorem Solid.append {text : List Char} (solid : Solid text) (u : List Char) : Solid (text ++ u) := by
  obtain ⟨c, cs, rfl, notBlank, notHash⟩ := solid
  exact ⟨c, cs ++ u, rfl, notBlank, notHash⟩

/-- A constraint never starts where a type does: a type begins with a letter
or a sigil, a constraint with a bracket. -/
theorem constraint_fails_of_type {input rest : List Char} {P : Ty → Prop} {consumed : Bool}
    (typeRead : (typeName tables).Yields input P consumed rest) :
    (parseConstraint tables).Fails input false := by
  obtain ⟨ty, position', reply, -⟩ := typeRead SourcePosition.start
  obtain ⟨c, cs, rfl, head⟩ := typeName_head reply
  have notOpen : c ≠ '(' ∧ c ≠ '{' := by
    rcases head with alpha | rfl | rfl | rfl
    · constructor
      · rintro rfl
        exact absurd alpha (by decide)
      · rintro rfl
        exact absurd alpha (by decide)
    all_goals exact ⟨by decide, by decide⟩
  exact ((LanguageEnv.parens_fails_of_head fun d ds same => by
      cases same
      exact notOpen.1).map _).or
    ((LanguageEnv.braces_fails_of_head fun d ds same => by
      cases same
      exact notOpen.2).map _)

/-- The constraints of a signature: `None` before a type, else every
constraint up to it. -/
theorem optionalConstraints_reads {input rest : List Char} {ks : List Constraint}
    (absent : ks = [] → (parseConstraint tables).Fails input false ∧ rest = input)
    (present : ks ≠ [] → (parseConstraint tables).many.Yields input
      (List.Forall₂ (fun a k => a.erase = k.erase) · ks) true rest) :
    (optional (many1 (parseConstraint tables))).Yields input
      (fun found => found.map (List.map Constraint.erase) = (readConstraints ks).map (List.map Constraint.erase))
      (!ks.isEmpty) rest := by
  cases ks with
  | nil =>
      obtain ⟨stop, rfl⟩ := absent rfl
      exact (optional_yields_none (Fails.many1 stop)).mono fun found empty => by
        simp [empty, readConstraints]
  | cons k ks =>
      have read := (present (List.cons_ne_nil k ks)).many1_of_many parseConstraint_progresses
        (List.cons_ne_nil k ks)
      exact read.optional_some.mono fun found ⟨found', same, related⟩ => by
        simp [same, readConstraints, map_erase_of_forall₂ related]

theorem signature_erase_of_read {found : Option (List Constraint)} {ks : List Constraint} {tys' tys : List Ty}
    (constraints : found.map (List.map Constraint.erase) = (readConstraints ks).map (List.map Constraint.erase))
    (types : List.Forall₂ (· = ·) tys' tys) :
    (Signature.mk found tys').erase = (Signature.mk (readConstraints ks) tys).erase := by
  rw [List.forall₂_eq_eq_eq] at types
  rw [types]
  simp only [Signature.erase, constraints]

theorem arrowType_progresses :
    ((((language tables).reservedOp "->".toList).or ((language tables).reservedOp Chars.arrow)).seqRight
      ((language tables).lex (typeName tables))).Progresses :=
  ((LanguageEnv.reservedWith_progresses (language_lawful tables) _ (by decide)).or
    (LanguageEnv.reservedWith_progresses (language_lawful tables) _ (by decide))).seqRight
      (LanguageEnv.lex_nonGrowing (language_lawful tables) typeName_nonGrowing)

section Spellings

variable {arrow : List Char} (isArrow : arrow = "->".toList ∨ arrow = Chars.arrow)
  {ks : List Constraint} {ktexts : List (List Char)} {tys : List Ty} {ttexts : List (List Char)}

include isArrow in
theorem arrow_solid : Solid arrow := by
  rcases isArrow with rfl | rfl
  all_goals exact ⟨_, _, rfl, by decide, by decide⟩

include isArrow in
/-- After a type of the infix chain: the next arrow after a blank, or the brace. -/
theorem chain_rest {texts : List (List Char)} (z : List Char) :
    Continues tables (texts.flatMap ((' ' :: arrow ++ [' ']) ++ ·) ++ '}' :: z) ∧
      Solid (trim (texts.flatMap ((' ' :: arrow ++ [' ']) ++ ·) ++ '}' :: z)) := by
  cases texts with
  | nil =>
      refine ⟨continues_closeBrace z, ?_⟩
      rw [List.flatMap_nil, List.nil_append, trim_cons_of_not_blank (by decide)]
      exact ⟨'}', z, rfl, by decide, by decide⟩
  | cons t ts =>
      have blank : Chars.isWhitespace ' ' = true := by decide
      have solid := arrow_solid isArrow
      have shape : (t :: ts).flatMap ((' ' :: arrow ++ [' ']) ++ ·) ++ '}' :: z =
          ' ' :: (arrow ++ ' ' :: (t ++ (ts.flatMap ((' ' :: arrow ++ [' ']) ++ ·) ++ '}' :: z))) := by
        simp
      rw [shape, trim_cons_of_blank blank, solid.trim_append]
      exact ⟨continues_of_blank blank (solid.noComment _), solid.append _⟩

include isArrow in
/-- The types after the first in the infix chain, each after an arrow. -/
theorem arrowChain_reads (z : List Char) :
    ∀ {tys : List Ty} {texts : List (List Char)},
      List.Forall₂ (fun ty text => ReadsBack tables (typeName tables) (· = ty) text) tys texts →
      ((((language tables).reservedOp "->".toList).or ((language tables).reservedOp Chars.arrow)).seqRight
          ((language tables).lex (typeName tables))).many.Yields
        (trim (texts.flatMap ((' ' :: arrow ++ [' ']) ++ ·) ++ '}' :: z)) (List.Forall₂ (· = ·) · tys)
        (!tys.isEmpty) ('}' :: z)
  | _, _, .nil => by
      have stop : (((language tables).reservedOp "->".toList).or ((language tables).reservedOp Chars.arrow)).Fails
          ('}' :: z) false :=
        Fails.or (reservedOp_fails_of_unmatched (cons_not_prefix_of_ne (by decide) : ¬['-', '>'] <+: _))
          (reservedOp_fails_of_unmatched (cons_not_prefix_of_ne (by decide) : ¬['→'] <+: _))
      rw [List.flatMap_nil, List.nil_append, trim_cons_of_not_blank (by decide)]
      exact (many_yields_nil arrowType_progresses (stop.bind _)).mono fun _ empty => by rw [empty]; exact .nil
  | _ :: _, text :: texts, .cons item items => by
      have blank : Chars.isWhitespace ' ' = true := by decide
      have solid := arrow_solid isArrow
      obtain ⟨follows, restSolid⟩ : Continues tables (texts.flatMap ((' ' :: arrow ++ [' ']) ++ ·) ++ '}' :: z) ∧
          Solid (trim (texts.flatMap ((' ' :: arrow ++ [' ']) ++ ·) ++ '}' :: z)) :=
        chain_rest isArrow z
      have arrowRead : (((language tables).reservedOp "->".toList).or
          ((language tables).reservedOp Chars.arrow)).Yields
          (arrow ++ ' ' :: (text ++ (texts.flatMap ((' ' :: arrow ++ [' ']) ++ ·) ++ '}' :: z)))
          (fun _ => True) true (trim (text ++ (texts.flatMap ((' ' :: arrow ++ [' ']) ++ ·) ++ '}' :: z))) := by
        rw [← trim_cons_of_blank blank]
        refine reservedOp_either_yields isArrow (by decide) (by decide) (by decide) (ops_ends_of_led rfl) ?_
        rw [trim_cons_of_blank blank]
        exact item.indented.noComment _
      have head : ((((language tables).reservedOp "->".toList).or
          ((language tables).reservedOp Chars.arrow)).seqRight ((language tables).lex (typeName tables))).Yields
          (arrow ++ ' ' :: (text ++ (texts.flatMap ((' ' :: arrow ++ [' ']) ++ ·) ++ '}' :: z)))
          ((· = ·) · _) true (trim (texts.flatMap ((' ' :: arrow ++ [' ']) ++ ·) ++ '}' :: z)) :=
        arrowRead.seqRight ((item.reads _ follows).skip (whiteSpace_solid restSolid))
      have shape : trim ((text :: texts).flatMap ((' ' :: arrow ++ [' ']) ++ ·) ++ '}' :: z) =
          arrow ++ ' ' :: (text ++ (texts.flatMap ((' ' :: arrow ++ [' ']) ++ ·) ++ '}' :: z)) := by
        simp only [List.flatMap_cons, List.cons_append, List.append_assoc, List.nil_append,
          trim_cons_of_blank blank, solid.trim_append]
      rw [shape]
      exact many_yields_cons arrowType_progresses head (arrowChain_reads z items)

variable (constraints : List.Forall₂
    (fun k text => ReadsBack tables (parseConstraint tables) (·.erase = k.erase) text) ks ktexts)
  (types : List.Forall₂ (fun ty text => ReadsBack tables (typeName tables) (· = ty) text) tys ttexts)
  (nonempty : tys ≠ [])

include isArrow constraints types nonempty in
/-- `(-> k… t₁ … tₙ)`: the arrow, the constraints, then the types. -/
theorem prefixSignature_reads :
    ReadsBack tables (parseSignature tables) (·.erase = (Signature.mk (readConstraints ks) tys).erase)
      ('(' :: arrow ++ (ktexts ++ ttexts).flatMap (' ' :: ·) ++ [')']) := by
  refine ReadsBack.of_solid ⟨'(', _, rfl, by decide, by decide⟩ fun z follows => ?_
  have blank : Chars.isWhitespace ' ' = true := by decide
  have close : trim (')' :: z) = ')' :: z := trim_cons_of_not_blank (by decide)
  have textsNonempty : ttexts ≠ [] := by
    rintro rfl
    cases types
    exact nonempty rfl
  have typesIndented := ReadsBack.indented_all types
  have typesRead := (many_reads_led typeName_progresses (continues_close z)
    (by rw [close]; exact typeName_fails_close z) types).many1_of_many typeName_progresses nonempty
  rw [close] at typesRead
  have stop : (parseConstraint tables).Fails (trim (ttexts.flatMap (' ' :: ·) ++ ')' :: z)) false := by
    obtain ⟨t, ts, rfl⟩ := List.exists_cons_of_ne_nil textsNonempty
    obtain ⟨ty, others, first, rest, rfl⟩ := List.forall₂_cons_right_iff.mp types
    have shape : trim ((t :: ts).flatMap (' ' :: ·) ++ ')' :: z) =
        trim (t ++ (ts.flatMap (' ' :: ·) ++ ')' :: z)) := by
      simp only [List.flatMap_cons, List.cons_append, List.append_assoc, trim_cons_of_blank blank]
    rw [shape]
    exact constraint_fails_of_type
      (first.reads _ (led_continues (ReadsBack.indented_all rest) (continues_close z)))
  have constraintsRead : (optional (many1 (parseConstraint tables))).Yields
      (trim (ktexts.flatMap (' ' :: ·) ++ (ttexts.flatMap (' ' :: ·) ++ ')' :: z)))
      (fun found => found.map (List.map Constraint.erase) = (readConstraints ks).map (List.map Constraint.erase))
      (!ks.isEmpty) (trim (ttexts.flatMap (' ' :: ·) ++ ')' :: z)) :=
    optionalConstraints_reads
      (fun empty => by
        subst empty
        cases constraints
        exact ⟨stop, rfl⟩)
      (fun present => by
        obtain ⟨k, more, rfl⟩ := List.exists_cons_of_ne_nil present
        exact many_reads_led parseConstraint_progresses (led_continues typesIndented (continues_close z))
          stop constraints)
  obtain ⟨u, led, noComment⟩ := led_blank (List.append_ne_nil_of_right_ne_nil ktexts textsNonempty)
    (fun t member => (List.mem_append.mp member).elim (ReadsBack.indented_all constraints t) (typesIndented t))
    (')' :: z)
  have arrowRead : (((language tables).reservedOp "->".toList).or
      ((language tables).reservedOp Chars.arrow)).Yields (arrow ++ ((ktexts ++ ttexts).flatMap (' ' :: ·) ++ ')' :: z))
      (fun _ => True) true (trim ((ktexts ++ ttexts).flatMap (' ' :: ·) ++ ')' :: z)) :=
    reservedOp_either_yields isArrow (by decide) (by decide) (by decide) (ops_ends_of_led led)
      (by rw [led, trim_cons_of_blank blank]; exact noComment)
  have split : (ktexts ++ ttexts).flatMap (' ' :: ·) ++ ')' :: z =
      ktexts.flatMap (' ' :: ·) ++ (ttexts.flatMap (' ' :: ·) ++ ')' :: z) := by
    simp only [List.flatMap_append, List.append_assoc]
  rw [split] at arrowRead
  have body := (arrowRead.seqRight constraintsRead).and typesRead
  have arrowSolid := (arrow_solid isArrow).append
    (ktexts.flatMap (' ' :: ·) ++ (ttexts.flatMap (' ' :: ·) ++ ')' :: z))
  rw [← arrowSolid.trim_self] at body
  have bracketed : ((language tables).parens _).Yields _ _ true (trim z) :=
    parens_yields_trim (by simpa using arrowSolid.noComment []) body follows.noComment
  have spelled : ('(' :: arrow ++ (ktexts ++ ttexts).flatMap (' ' :: ·) ++ [')']) ++ z =
      '(' :: (arrow ++ (ktexts.flatMap (' ' :: ·) ++ (ttexts.flatMap (' ' :: ·) ++ ')' :: z))) := by
    simp only [List.cons_append, List.append_assoc, List.nil_append, List.flatMap_append]
  rw [spelled]
  unfold parseSignature parsePrefixSig
  exact (bracketed.map _ fun pair ⟨found, read⟩ => signature_erase_of_read found read).or_left _

include isArrow constraints types nonempty in
/-- `{k… t₁ -> … -> tₙ}`: the constraints, then the types between arrows. -/
theorem infixSignature_reads :
    ReadsBack tables (parseSignature tables) (·.erase = (Signature.mk (readConstraints ks) tys).erase)
      ('{' :: ktexts.flatMap (· ++ [' ']) ++ List.intercalate (' ' :: arrow ++ [' ']) ttexts ++ ['}']) := by
  refine ReadsBack.of_solid ⟨'{', _, rfl, by decide, by decide⟩ fun z follows => ?_
  obtain ⟨ty, others, rfl⟩ := List.exists_cons_of_ne_nil nonempty
  obtain ⟨t, ts, first, rest, rfl⟩ := List.forall₂_cons_left_iff.mp types
  rw [intercalate_cons_eq_flatMap]
  obtain ⟨chainFollows, chainSolid⟩ :
      Continues tables (ts.flatMap ((' ' :: arrow ++ [' ']) ++ ·) ++ '}' :: z) ∧
        Solid (trim (ts.flatMap ((' ' :: arrow ++ [' ']) ++ ·) ++ '}' :: z)) :=
    chain_rest isArrow z
  have typesRead : (sepBy1 ((language tables).lex (typeName tables))
      (((language tables).reservedOp "->".toList).or ((language tables).reservedOp Chars.arrow))).Yields
      (trim (t ++ (ts.flatMap ((' ' :: arrow ++ [' ']) ++ ·) ++ '}' :: z)))
      (List.Forall₂ (· = ·) · (ty :: others)) true ('}' :: z) :=
    sepBy1_yields ((first.reads _ chainFollows).skip (whiteSpace_solid chainSolid))
      (arrowChain_reads isArrow z rest)
  have stop := constraint_fails_of_type (first.reads _ chainFollows)
  have constraintsRead : (optional (many1 (parseConstraint tables))).Yields
      (trim (ktexts.flatMap (· ++ [' ']) ++ (t ++ (ts.flatMap ((' ' :: arrow ++ [' ']) ++ ·) ++ '}' :: z))))
      (fun found => found.map (List.map Constraint.erase) = (readConstraints ks).map (List.map Constraint.erase))
      (!ks.isEmpty) (trim (t ++ (ts.flatMap ((' ' :: arrow ++ [' ']) ++ ·) ++ '}' :: z))) :=
    optionalConstraints_reads
      (fun empty => by
        subst empty
        cases constraints
        exact ⟨stop, rfl⟩)
      (fun present => by
        obtain ⟨k, more, rfl⟩ := List.exists_cons_of_ne_nil present
        exact many_reads_followed parseConstraint_progresses (first.indented.noComment _) stop constraints)
  have body := constraintsRead.and typesRead
  have bracketed : ((language tables).braces _).Yields _ _ true (trim z) :=
    braces_yields_trim (followed_noComment (ReadsBack.indented_all constraints) (first.indented.noComment _))
      body follows.noComment
  have spelled : ('{' :: ktexts.flatMap (· ++ [' ']) ++ (t ++ ts.flatMap ((' ' :: arrow ++ [' ']) ++ ·)) ++
      ['}']) ++ z =
      '{' :: (ktexts.flatMap (· ++ [' ']) ++ (t ++ (ts.flatMap ((' ' :: arrow ++ [' ']) ++ ·) ++ '}' :: z))) := by
    simp only [List.cons_append, List.append_assoc, List.nil_append]
  rw [spelled]
  unfold parseSignature parseInfixSig
  have prefixFails : (parsePrefixSig tables).Fails
      ('{' :: (ktexts.flatMap (· ++ [' ']) ++ (t ++ (ts.flatMap ((' ' :: arrow ++ [' ']) ++ ·) ++ '}' :: z))))
      false :=
    (LanguageEnv.parens_fails_of_head fun d ds head => by
      cases head
      decide).map _
  exact Yields.or_right prefixFails
    (bracketed.map _ fun pair ⟨found, read⟩ => signature_erase_of_read found read)

include isArrow constraints types nonempty in
/-- Both spellings of a signature, with either arrow, read back as the same
signature: `(-> k… t₁ … tₙ)` and `{k… t₁ -> … -> tₙ}` have the constraints
`k…` and the type chain `t₁ … tₙ`. -/
theorem signature_spellings_agree :
    ReadsBack tables (parseSignature tables) (·.erase = (Signature.mk (readConstraints ks) tys).erase)
        ('(' :: arrow ++ (ktexts ++ ttexts).flatMap (' ' :: ·) ++ [')']) ∧
      ReadsBack tables (parseSignature tables) (·.erase = (Signature.mk (readConstraints ks) tys).erase)
        ('{' :: ktexts.flatMap (· ++ [' ']) ++ List.intercalate (' ' :: arrow ++ [' ']) ttexts ++ ['}']) :=
  ⟨prefixSignature_reads isArrow constraints types nonempty,
    infixSignature_reads isArrow constraints types nonempty⟩

end Spellings

/-- `(-> (=> Eq a) int bool)` and `{(=> Eq a) int -> bool}`. -/
theorem signature_spellings_agree_intToBool :
    let k := namedConstraint ['E', 'q'] [['a']]
    let ktext := '(' :: "=>".toList ++ [['E', 'q'], ['a']].flatMap (' ' :: ·) ++ [')']
    ReadsBack CharTables.ascii (parseSignature CharTables.ascii)
        (·.erase = (Signature.mk (readConstraints [k]) [.prim .intSize, .prim .bool]).erase)
        ('(' :: "->".toList ++ ([ktext] ++ [['i', 'n', 't'], ['b', 'o', 'o', 'l']]).flatMap (' ' :: ·) ++
          [')']) ∧
      ReadsBack CharTables.ascii (parseSignature CharTables.ascii)
        (·.erase = (Signature.mk (readConstraints [k]) [.prim .intSize, .prim .bool]).erase)
        ('{' :: [ktext].flatMap (· ++ [' ']) ++
          List.intercalate (' ' :: "->".toList ++ [' ']) [['i', 'n', 't'], ['b', 'o', 'o', 'l']] ++ ['}']) := by
  intro k ktext
  have validClass : validIdent CharTables.ascii ['E', 'q'] = true := by decide
  have valid : ∀ g ∈ [['a']], validIdent CharTables.ascii g = true :=
    List.forall_mem_singleton.mpr (by decide)
  have constraint : ReadsBack CharTables.ascii (parseConstraint CharTables.ascii) (·.erase = k.erase) ktext :=
    (prefixConstraint_reads (.inl rfl) validClass valid (List.cons_ne_nil _ _)).mono fun found same => by
      rw [same]
      rfl
  have keyword : ∀ {entry : List Char × Primitive}, entry ∈ primitiveKeywords → Solid entry.1 →
      ReadsBack CharTables.ascii (typeName CharTables.ascii) (· = .prim entry.2) entry.1 :=
    fun listed solid => ReadsBack.of_solid solid fun _ follows => typeName_reads [] listed follows
  have int := @keyword (['i', 'n', 't'], .intSize) (by decide) ⟨'i', _, rfl, by decide, by decide⟩
  have bool := @keyword (['b', 'o', 'o', 'l'], .bool) (by decide) ⟨'b', _, rfl, by decide, by decide⟩
  exact signature_spellings_agree (.inl rfl) (.cons constraint .nil) (.cons int (.cons bool .nil))
    (List.cons_ne_nil _ _)

end Signatures

end Mnemosyne.Parser
