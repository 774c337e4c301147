import Mnemosyne.Parser.Language
import Mnemosyne.Semantic.Types

/-! # Type names

`parse_primitive_ty`, the three pointer parsers and `parse_type` of
`parser/src/lib.rs`.  `parse_type` calls itself through `type_name()` under a
sigil; the model hands the recursive parser in as an argument and ties the
knot with `Parser.fix`, whose fuel `typeName_eq` shows to be immaterial.

The keyword table maps `uint` to `IntSize`, the primitive of `int`, and
`Display` writes `IntSize` as `int`: under any stack of sigils, `uint` reads
as the type written with `int`.  Every other keyword reads back as itself.
-/

namespace Mnemosyne.Parser

open Combine Combine.Parser Mnemosyne.Types

/-- The keyword table of `parse_primitive_ty`, in its order. -/
def primitiveKeywords : List (List Char × Primitive) :=
  [("int".toList, .intSize), ("uint".toList, .intSize), ("float".toList, .float),
    ("double".toList, .double), ("bool".toList, .bool), ("i8".toList, .int .int8),
    ("i16".toList, .int .int16), ("i32".toList, .int .int32), ("i64".toList, .int .int64),
    ("u8".toList, .uint .int8), ("u16".toList, .uint .int16), ("u32".toList, .uint .int32),
    ("u64".toList, .uint .int64)]

section Parsers

variable (tables : CharTables)

def parsePrimitiveTy : Parser Ty :=
  (choice (primitiveKeywords.map fun entry =>
    ((language tables).reserved entry.1).seqRight (value entry.2))).map Ty.prim

/-- The pointer parsers: a sigil character, then a type name under it. -/
def pointerTy (sigil : Char) (reference : Ty → Reference) (typeName : Parser Ty) : Parser Ty :=
  ((char sigil).seqRight typeName).map fun t => .ref (reference t)

def rawPtrTy (typeName : Parser Ty) : Parser Ty :=
  pointerTy '*' Reference.raw typeName

def uniquePtrTy (typeName : Parser Ty) : Parser Ty :=
  pointerTy '@' Reference.unique typeName

def borrowPtrTy (typeName : Parser Ty) : Parser Ty :=
  pointerTy '&' Reference.borrowed typeName

def parseType (typeName : Parser Ty) : Parser Ty :=
  choice [parsePrimitiveTy tables, rawPtrTy typeName, uniquePtrTy typeName, borrowPtrTy typeName]

/-- `type_name()`: `parse_type` calling itself. -/
def typeName : Parser Ty :=
  fix (parseType tables)

end Parsers

/-- A reference sigil, with the character the pointer parsers read for it. -/
inductive Sigil where
  | raw
  | unique
  | borrowed
  deriving DecidableEq, Repr

def Sigil.char : Sigil → Char
  | .raw => '*'
  | .unique => '@'
  | .borrowed => '&'

def Sigil.reference : Sigil → Ty → Reference
  | .raw => .raw
  | .unique => .unique
  | .borrowed => .borrowed

def sigilText (sigils : List Sigil) : List Char :=
  sigils.map Sigil.char

/-- The type a stack of sigils builds over `ty`, the outermost sigil first. -/
def wrapAll (sigils : List Sigil) (ty : Ty) : Ty :=
  sigils.foldr (fun sigil ty => .ref (sigil.reference ty)) ty

@[simp] theorem sigilText_nil : sigilText [] = [] := rfl

@[simp] theorem wrapAll_nil (ty : Ty) : wrapAll [] ty = ty := rfl

@[simp] theorem sigilText_cons (sigil : Sigil) (sigils : List Sigil) :
    sigilText (sigil :: sigils) = sigil.char :: sigilText sigils := rfl

@[simp] theorem wrapAll_cons (sigil : Sigil) (sigils : List Sigil) (ty : Ty) :
    wrapAll (sigil :: sigils) ty = .ref (sigil.reference (wrapAll sigils ty)) := rfl

variable {tables : CharTables} {rest : List Char}

section Recursion

theorem parsePrimitiveTy_nonGrowing : (parsePrimitiveTy tables).NonGrowing := by
  apply NonGrowing.map
  apply choice_nonGrowing
  intro q member
  obtain ⟨entry, -, rfl⟩ := List.mem_map.mp member
  exact (LanguageEnv.reservedWith_nonGrowing (language_lawful tables) _ _).seqRight
    (value_nonGrowing _)

theorem pointerTy_nonGrowing {sigil : Char} {reference : Ty → Reference} {p : Parser Ty}
    (grows : p.NonGrowing) : (pointerTy sigil reference p).NonGrowing :=
  ((satisfy_nonGrowing _).seqRight grows).map _

/-- The pointer parsers run the type name only after the sigil is read. -/
theorem pointerTy_eqBelow {sigil : Char} {reference : Ty → Reference} {p q : Parser Ty}
    {bound : Nat} (same : EqBelow bound p q) :
    EqBelow (bound + 1) (pointerTy sigil reference p) (pointerTy sigil reference q) :=
  (EqBelow.bind_progresses (satisfy_progresses _) fun _ => same).map _

theorem parseType_guarded : Guarded (parseType tables) where
  nonGrowing p grows := by
    apply choice_nonGrowing
    intro q member
    simp only [List.mem_cons, List.not_mem_nil, or_false] at member
    rcases member with rfl | rfl | rfl | rfl
    · exact parsePrimitiveTy_nonGrowing
    all_goals exact pointerTy_nonGrowing grows
  eqBelow bound p q _ same :=
    EqBelow.choice (.cons (EqBelow.refl _ _) (.cons (pointerTy_eqBelow same)
      (.cons (pointerTy_eqBelow same) (.cons (pointerTy_eqBelow same) .nil))))

/-- `type_name()` is `parse_type` with `type_name()` inside. -/
theorem typeName_eq : typeName tables = parseType tables (typeName tables) :=
  parseType_guarded.fix_eq

theorem typeName_nonGrowing : (typeName tables).NonGrowing :=
  parseType_guarded.fix_nonGrowing

end Recursion

section Reading

/-- No keyword of the table is a prefix of another, so `choice` never stops
at the wrong one. -/
theorem primitiveKeywords_prefix_free :
    ∀ e₁ ∈ primitiveKeywords, ∀ e₂ ∈ primitiveKeywords, e₁.1 <+: e₂.1 → e₁ = e₂ := by
  decide

theorem primitiveKeywords_nodup : primitiveKeywords.Nodup := by
  decide

theorem primitiveKeywords_heads :
    ∀ e ∈ primitiveKeywords, e.1.head?.map Char.isAlpha = some true := by
  decide

theorem primitiveKeyword_ne_nil {entry : List Char × Primitive} (listed : entry ∈ primitiveKeywords) :
    entry.1 ≠ [] := by
  intro empty
  have head := primitiveKeywords_heads entry listed
  rw [empty] at head
  cases head

theorem typeName_progresses : (typeName tables).Progresses := by
  rw [typeName_eq]
  apply choice_progresses
  intro q member
  simp only [List.mem_cons, List.not_mem_nil, or_false] at member
  rcases member with rfl | rfl | rfl | rfl
  · apply Progresses.map
    apply choice_progresses
    intro q member
    obtain ⟨entry, listed, rfl⟩ := List.mem_map.mp member
    exact (LanguageEnv.reservedWith_progresses (language_lawful tables) _
      (primitiveKeyword_ne_nil listed)).seqRight (value_nonGrowing _)
  all_goals exact ((satisfy_progresses _).seqRight typeName_nonGrowing).map _

theorem parsePrimitiveTy_yields {entry : List Char × Primitive} (listed : entry ∈ primitiveKeywords)
    (follows : Continues tables rest) :
    (parsePrimitiveTy tables).Yields (entry.1 ++ rest) (· = .prim entry.2) true (trim rest) := by
  obtain ⟨pre, post, split⟩ := List.append_of_mem listed
  have fresh : entry ∉ pre := by
    have nodup := primitiveKeywords_nodup
    rw [split, List.nodup_append] at nodup
    exact fun member => nodup.2.2 entry member entry (by simp) rfl
  have earlier : ∀ q ∈ pre.map (fun e => ((language tables).reserved e.1).seqRight (value e.2)),
      q.Fails (entry.1 ++ rest) false := by
    intro q member
    obtain ⟨e, before, rfl⟩ := List.mem_map.mp member
    have listedBefore : e ∈ primitiveKeywords := by rw [split]; simp [before]
    have differ : e ≠ entry := fun same => fresh (same ▸ before)
    refine (reserved_fails_of_unmatched fun isPrefix => differ ?_).bind _
    rcases List.prefix_or_prefix_of_prefix isPrefix (List.prefix_append entry.1 rest) with
      shorter | longer
    · exact primitiveKeywords_prefix_free e listedBefore entry listed shorter
    · exact (primitiveKeywords_prefix_free entry listed e listedBefore longer).symm
  have reads : (((language tables).reserved entry.1).seqRight (value entry.2)).Yields
      (entry.1 ++ rest) (· = entry.2) true (trim rest) :=
    (reserved_yields (primitiveKeyword_ne_nil listed) follows).seqRight (value_yields _ _)
  have chosen : (choice ((pre ++ entry :: post).map fun e =>
      ((language tables).reserved e.1).seqRight (value e.2))).Yields (entry.1 ++ rest)
      (· = entry.2) true (trim rest) := by
    rw [List.map_append, List.map_cons]
    exact Yields.choice earlier reads
  rw [← split] at chosen
  exact chosen.map Ty.prim fun _ same => by rw [same]

/-- No keyword starts with a character other than a letter. -/
theorem parsePrimitiveTy_fails {input : List Char}
    (refused : ∀ c cs, input = c :: cs → c.isAlpha = false) :
    (parsePrimitiveTy tables).Fails input false := by
  apply Fails.map
  apply Fails.choice
  intro q member
  obtain ⟨entry, listed, rfl⟩ := List.mem_map.mp member
  refine (reserved_fails_of_unmatched fun isPrefix => ?_).bind _
  have head := primitiveKeywords_heads entry listed
  cases word : entry.1 with
  | nil => rw [word] at head; cases head
  | cons c cs =>
      rw [word] at head isPrefix
      cases input with
      | nil => exact absurd isPrefix (by simp)
      | cons d ds =>
          obtain ⟨rfl, -⟩ := List.cons_prefix_cons.mp isPrefix
          have alpha : c.isAlpha = true := by simpa using head
          rw [refused c ds rfl] at alpha
          cases alpha

theorem pointerTy_yields {sigil : Char} {reference : Ty → Reference} {p : Parser Ty}
    {text : List Char} {ty : Ty} (inner : p.Yields text (· = ty) true rest) :
    (pointerTy sigil reference p).Yields (sigil :: text) (· = .ref (reference ty)) true rest :=
  ((satisfy_yields (by simp) text).seqRight inner).map _ fun _ same => by rw [same]

theorem pointerTy_fails {sigil : Char} {reference : Ty → Reference} {p : Parser Ty}
    {input : List Char} (refused : ∀ c cs, input = c :: cs → c ≠ sigil) :
    (pointerTy sigil reference p).Fails input false :=
  ((satisfy_fails fun c cs head => by simpa using refused c cs head).bind _).map _

/-- A stack of sigils over a keyword reads as the keyword's primitive under
the sigils' references. -/
theorem typeName_reads (sigils : List Sigil) {entry : List Char × Primitive}
    (listed : entry ∈ primitiveKeywords) (follows : Continues tables rest) :
    (typeName tables).Yields (sigilText sigils ++ (entry.1 ++ rest))
      (· = wrapAll sigils (.prim entry.2)) true (trim rest) := by
  induction sigils with
  | nil => rw [typeName_eq]; exact (parsePrimitiveTy_yields listed follows).or_left _
  | cons sigil sigils ih =>
      rw [typeName_eq]
      have primitiveFails : (parsePrimitiveTy tables).Fails
          (sigil.char :: (sigilText sigils ++ (entry.1 ++ rest))) false :=
        parsePrimitiveTy_fails fun c cs head => by
          cases head
          cases sigil <;> rfl
      cases sigil with
      | raw => exact Yields.or_right primitiveFails ((pointerTy_yields ih).or_left _)
      | unique =>
          exact Yields.or_right primitiveFails
            (Yields.or_right (pointerTy_fails fun _ _ head => by cases head; decide)
              ((pointerTy_yields ih).or_left _))
      | borrowed =>
          exact Yields.or_right primitiveFails
            (Yields.or_right (pointerTy_fails fun _ _ head => by cases head; decide)
              (Yields.or_right (pointerTy_fails fun _ _ head => by cases head; decide)
                ((pointerTy_yields ih).or_left _)))

/-- `type_name()` refuses, without consuming, text that starts with neither a
letter nor a sigil. -/
theorem typeName_fails_of_head {input : List Char}
    (refused : ∀ c cs, input = c :: cs → c.isAlpha = false ∧ c ≠ '*' ∧ c ≠ '@' ∧ c ≠ '&') :
    (typeName tables).Fails input false := by
  rw [typeName_eq]
  apply Fails.choice
  intro q member
  simp only [List.mem_cons, List.not_mem_nil, or_false] at member
  rcases member with rfl | rfl | rfl | rfl
  · exact parsePrimitiveTy_fails fun c cs head => (refused c cs head).1
  · exact pointerTy_fails fun c cs head => (refused c cs head).2.1
  · exact pointerTy_fails fun c cs head => (refused c cs head).2.2.1
  · exact pointerTy_fails fun c cs head => (refused c cs head).2.2.2

/-- A text that `type_name()` accepts starts with a letter or a sigil. -/
theorem typeName_head {position : SourcePosition} {text : List Char} {ty : Ty} {consumed : Bool}
    {rest : State} (accepted : typeName tables ⟨position, text⟩ = .ok ty consumed rest) :
    ∃ c cs, text = c :: cs ∧ (c.isAlpha = true ∨ c = '*' ∨ c = '@' ∨ c = '&') := by
  cases text with
  | nil =>
      have fails : (typeName tables).Fails [] false := typeName_fails_of_head fun _ _ empty => by
        cases empty
      rw [fails position] at accepted
      cases accepted
  | cons c cs =>
      refine ⟨c, cs, rfl, ?_⟩
      by_contra neither
      simp only [not_or] at neither
      obtain ⟨notAlpha, notRaw, notUnique, notBorrowed⟩ := neither
      have fails : (typeName tables).Fails (c :: cs) false := typeName_fails_of_head fun d ds head => by
        cases head
        exact ⟨by simpa using notAlpha, notRaw, notUnique, notBorrowed⟩
      rw [fails position] at accepted
      cases accepted

end Reading

section Display

theorem fmt_wrapAll (sigils : List Sigil) (ty : Ty) :
    (wrapAll sigils ty).fmt = (sigilText sigils ++ ·) <$> ty.fmt := by
  induction sigils with
  | nil => simp [wrapAll, sigilText]
  | cons sigil sigils ih =>
      cases sigil <;> simp [Ty.fmt, Reference.fmt, Sigil.reference, Sigil.char, ih, Function.comp_def]

/-- `Display` writes the primitive of each keyword as the keyword, except
that of `uint`, which it writes as `int`. -/
theorem primitiveKeywords_fmt : ∀ e ∈ primitiveKeywords,
    e.2.fmt = some (if e.1 = "uint".toList then "int".toList else e.1) := by
  decide

/-- `uint` under any stack of sigils parses to the type that the same stack
over `int` parses to, and `Display` writes that type with `int`. -/
theorem uint_reads_as_int (tables : CharTables) (sigils : List Sigil) :
    (typeName tables).Yields (sigilText sigils ++ "uint".toList)
        (· = wrapAll sigils (.prim .intSize)) true [] ∧
      (typeName tables).Yields (sigilText sigils ++ "int".toList)
        (· = wrapAll sigils (.prim .intSize)) true [] ∧
      (wrapAll sigils (.prim .intSize)).fmt = some (sigilText sigils ++ "int".toList) := by
  have ends : Continues tables [] := continues_nil
  have uint : ("uint".toList, Primitive.intSize) ∈ primitiveKeywords := by decide
  have int : ("int".toList, Primitive.intSize) ∈ primitiveKeywords := by decide
  refine ⟨?_, ?_, ?_⟩
  · simpa using typeName_reads sigils uint ends
  · simpa using typeName_reads sigils int ends
  · rw [fmt_wrapAll]
    rfl

/-- Every other keyword, under any stack of sigils, reads back as the text
`Display` writes for it. -/
theorem type_roundtrip (tables : CharTables) (sigils : List Sigil) {entry : List Char × Primitive}
    (listed : entry ∈ primitiveKeywords) (notUint : entry.1 ≠ "uint".toList) :
    (typeName tables).Yields (sigilText sigils ++ entry.1)
      (fun ty => ty.fmt = some (sigilText sigils ++ entry.1)) true [] := by
  have reads := typeName_reads sigils listed (continues_nil : Continues tables [])
  simp only [List.append_nil, trim_nil] at reads
  refine reads.mono fun ty same => ?_
  have written : (Ty.prim entry.2).fmt = some entry.1 := by
    have table := primitiveKeywords_fmt entry listed
    rw [if_neg notUint] at table
    simpa [Ty.fmt] using table
  rw [same, fmt_wrapAll, written]
  rfl

theorem type_roundtrip_pointers :
    ("i32".toList, Primitive.int .int32) ∈ primitiveKeywords ∧ "i32".toList ≠ "uint".toList ∧
      (typeName CharTables.ascii).Yields (sigilText [.raw, .borrowed] ++ "i32".toList)
        (fun ty => ty.fmt = some (sigilText [.raw, .borrowed] ++ "i32".toList)) true [] :=
  ⟨by decide, by decide,
    @type_roundtrip CharTables.ascii [.raw, .borrowed] ("i32".toList, .int .int32) (by decide)
      (by decide)⟩

end Display

end Mnemosyne.Parser

namespace Mnemosyne.Types

open Mnemosyne.Parser

def Primitive.readsBack (primitive : Primitive) : Bool :=
  match primitive.fmt with
  | some keyword => primitiveKeywords.lookup keyword == some primitive
  | none => false

mutual

/-- The printer's types that the parser reads back as themselves: stacks of
the three sigils over a primitive that `Display` writes as a keyword of the
table mapping back to it.  That leaves out `UintSize`, which reads back as
`IntSize`; `Byte`, `Char` and `Str`, which `Display` does not write; moved
references, which `Display` writes with `move ` and no parser reads; and
algebraic, function and symbol types, which no parser builds. -/
def Ty.readsBack : Ty → Bool
  | .prim primitive => primitive.readsBack
  | .ref reference => reference.readsBack
  | _ => false

def Reference.readsBack : Reference → Bool
  | .raw ty => ty.readsBack
  | .unique ty => ty.readsBack
  | .borrowed ty => ty.readsBack
  | .moved _ => false

end

theorem Primitive.keyword_of_readsBack {primitive : Primitive} (reads : primitive.readsBack = true) :
    ∃ keyword, (keyword, primitive) ∈ primitiveKeywords ∧ primitive.fmt = some keyword := by
  cases primitive with
  | int bits => cases bits <;> exact ⟨_, by decide, rfl⟩
  | uint bits => cases bits <;> exact ⟨_, by decide, rfl⟩
  | intSize => exact ⟨_, by decide, rfl⟩
  | bool => exact ⟨_, by decide, rfl⟩
  | float => exact ⟨_, by decide, rfl⟩
  | double => exact ⟨_, by decide, rfl⟩
  | uintSize => exact absurd reads (by decide)
  | byte => exact absurd reads (by decide)
  | char => exact absurd reads (by decide)
  | str => exact absurd reads (by decide)

mutual

theorem Ty.sigils_of_readsBack : ∀ ty : Ty, ty.readsBack = true →
    ∃ sigils primitive, ty = wrapAll sigils (.prim primitive) ∧ primitive.readsBack = true
  | .prim primitive, reads => ⟨[], primitive, rfl, reads⟩
  | .ref reference, reads => Reference.sigils_of_readsBack reference reads
  | .algebraic _, reads => absurd reads (by simp [Ty.readsBack])
  | .function _, reads => absurd reads (by simp [Ty.readsBack])
  | .symbol _, reads => absurd reads (by simp [Ty.readsBack])

theorem Reference.sigils_of_readsBack : ∀ reference : Reference, reference.readsBack = true →
    ∃ sigils primitive, Ty.ref reference = wrapAll sigils (.prim primitive) ∧
      primitive.readsBack = true
  | .raw ty, reads => by
      obtain ⟨sigils, primitive, rfl, primitiveReads⟩ := Ty.sigils_of_readsBack ty reads
      exact ⟨.raw :: sigils, primitive, rfl, primitiveReads⟩
  | .unique ty, reads => by
      obtain ⟨sigils, primitive, rfl, primitiveReads⟩ := Ty.sigils_of_readsBack ty reads
      exact ⟨.unique :: sigils, primitive, rfl, primitiveReads⟩
  | .borrowed ty, reads => by
      obtain ⟨sigils, primitive, rfl, primitiveReads⟩ := Ty.sigils_of_readsBack ty reads
      exact ⟨.borrowed :: sigils, primitive, rfl, primitiveReads⟩
  | .moved _, reads => absurd reads (by simp [Reference.readsBack])

end

end Mnemosyne.Types

namespace Mnemosyne.Parser

open Mnemosyne.Types

variable {tables : CharTables}

/-- A type that reads back: `Display` writes it, the text starts with a
sigil or a letter, and `type_name()` reads the text as the type. -/
theorem typeName_reads_fmt {ty : Ty} (reads : ty.readsBack = true) :
    ∃ text, ty.fmt = some text ∧ Solid text ∧
      ∀ rest, Continues tables rest → (typeName tables).Yields (text ++ rest) (· = ty) true (trim rest) := by
  obtain ⟨sigils, primitive, rfl, primitiveReads⟩ := Ty.sigils_of_readsBack ty reads
  obtain ⟨keyword, listed, written⟩ := Primitive.keyword_of_readsBack primitiveReads
  have wrapped : (wrapAll sigils (.prim primitive)).fmt = some (sigilText sigils ++ keyword) := by
    rw [fmt_wrapAll]
    simp [Ty.fmt, written]
  refine ⟨sigilText sigils ++ keyword, wrapped, ?_, fun rest follows => ?_⟩
  · cases sigils with
    | cons sigil sigils => exact ⟨sigil.char, _, rfl, by cases sigil <;> decide, by cases sigil <;> decide⟩
    | nil =>
        have head := primitiveKeywords_heads _ listed
        cases keyword with
        | nil => cases head
        | cons c cs =>
            have alpha : c.isAlpha = true := by simpa using head
            exact Solid.of_isIdentStart (@isIdentStart_of_isAlpha tables _ alpha)
  · simpa using typeName_reads sigils listed follows

end Mnemosyne.Parser
