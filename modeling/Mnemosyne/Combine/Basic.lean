import Mathlib.Data.List.Basic

/-! # Parser combinators with committed choice

The parser combinators of the Rust crate `combine` (1.x), which the
Mnemosyne parser is written in.  A parser reads a state (the remaining input
and its position) and either succeeds with a value and the rest of the state
or fails; either way the reply records whether input was consumed, and the
combinators branch on that bit: `or` tries its second parser only after a
failure of the first that consumed nothing, `try` (here `attempt`) erases
the consumption of a failure, and `many` stops at the first failure that
consumed nothing.  The error messages `combine` assembles are left out.

`many` runs on fuel, one unit more than the input is long.  It runs out only
for a parser that succeeds without consuming input, on which `combine`
itself loops forever; `Growth` shows that with a parser that always consumes
the fuel is never the limit.
-/

namespace Combine

structure SourcePosition where
  line : Int
  column : Int
  deriving DecidableEq, Repr

namespace SourcePosition

def start : SourcePosition := ⟨1, 1⟩

/-- `impl Positioner for char`: a character moves one column right and a
newline moves to the first column of the next line. -/
def update (position : SourcePosition) (c : Char) : SourcePosition :=
  if c = '\n' then ⟨position.line + 1, 1⟩ else ⟨position.line, position.column + 1⟩

end SourcePosition

structure State where
  position : SourcePosition
  input : List Char

/-- `ParseResult` with its `Consumed` and `Empty` wrappers folded into a flag. -/
inductive Reply (α : Type) where
  | ok (value : α) (consumed : Bool) (rest : State)
  | error (consumed : Bool)

def Parser (α : Type) : Type := State → Reply α

namespace Parser

variable {α β γ : Type}

def value (a : α) : Parser α := fun s => .ok a false s

/-- A failure that consumes nothing; `combine`'s `unexpected`. -/
def fail : Parser α := fun _ => .error false

/-- `then`: run `p`, then the parser its value selects.  The result has
consumed input if either part did. -/
def bind (p : Parser α) (f : α → Parser β) : Parser β := fun s =>
  match p s with
  | .ok a consumed rest =>
      match f a rest with
      | .ok b consumed' rest' => .ok b (consumed || consumed') rest'
      | .error consumed' => .error (consumed || consumed')
  | .error consumed => .error consumed

def map (p : Parser α) (f : α → β) : Parser β := fun s =>
  match p s with
  | .ok a consumed rest => .ok (f a) consumed rest
  | .error consumed => .error consumed

def and (p : Parser α) (q : Parser β) : Parser (α × β) :=
  p.bind fun a => q.map fun b => (a, b)

/-- `combine`'s `with`: run both, keep the second value. -/
def seqRight (p : Parser α) (q : Parser β) : Parser β :=
  p.bind fun _ => q

def skip (p : Parser α) (q : Parser β) : Parser α :=
  p.bind fun a => q.map fun _ => a

def or (p q : Parser α) : Parser α := fun s =>
  match p s with
  | .error false => q s
  | reply => reply

/-- `combine`'s `try`: a failure no longer counts as having consumed input. -/
def attempt (p : Parser α) : Parser α := fun s =>
  match p s with
  | .error _ => .error false
  | reply => reply

/-- Read the position before running the parser it selects; the parse
functions that annotate nodes clone `input.position` this way. -/
def withPosition (f : SourcePosition → Parser α) : Parser α := fun s =>
  f s.position s

def satisfy (pred : Char → Bool) : Parser Char := fun s =>
  match s.input with
  | c :: rest => if pred c then .ok c true ⟨s.position.update c, rest⟩ else .error false
  | [] => .error false

def char (c : Char) : Parser Char :=
  satisfy (· == c)

def anyChar : Parser Char :=
  satisfy fun _ => true

/-- `digit()`: `char::is_digit(10)`, the ASCII digits. -/
def digit : Parser Char :=
  satisfy Char.isDigit

/-- Match the characters of a string one by one; a mismatch after the first
character is a failure that has consumed input. -/
def matchString : Bool → List Char → Parser Unit
  | consumed, [], s => .ok () consumed s
  | consumed, c :: cs, s =>
      match s.input with
      | d :: ds =>
          if c = d then matchString true cs ⟨s.position.update d, ds⟩ else .error consumed
      | [] => .error consumed

def string (w : List Char) : Parser (List Char) :=
  (matchString false w).map fun _ => w

/-- `choice` over an array: each alternative is tried after the ones before
it failed without consuming input. -/
def choice : List (Parser α) → Parser α
  | [] => fail
  | p :: ps => p.or (choice ps)

def manyFuel (p : Parser α) : Nat → Parser (List α)
  | 0 => fun _ => .error true
  | fuel + 1 => (p.bind fun a => (p.manyFuel fuel).map (a :: ·)).or (value [])

def many (p : Parser α) : Parser (List α) := fun s =>
  p.manyFuel (s.input.length + 1) s

def many1 (p : Parser α) : Parser (List α) :=
  p.bind fun a => p.many.map (a :: ·)

def skipMany (p : Parser α) : Parser Unit :=
  p.many.map fun _ => ()

def skipMany1 (p : Parser α) : Parser Unit :=
  p.many1.map fun _ => ()

def sepBy1 (p : Parser α) (sep : Parser β) : Parser (List α) :=
  p.bind fun a => (sep.seqRight p).many.map (a :: ·)

def between (opening : Parser β) (closing : Parser γ) (p : Parser α) : Parser α :=
  (opening.seqRight p).skip closing

def optional (p : Parser α) : Parser (Option α) :=
  (p.map some).or (value none)

/-- `not_followed_by(p)` is `try(p).then(|c| unexpected(c)).or(value(()))`:
it succeeds without consuming unless `p` succeeds having consumed input. -/
def notFollowedBy (p : Parser α) : Parser Unit :=
  ((attempt p).bind fun _ => fail).or (value ())

/-- `Parser::parse`: run from the start position and return the value with
the input that is left. -/
def parse (p : Parser α) (input : List Char) : Except Unit (α × List Char) :=
  match p ⟨.start, input⟩ with
  | .ok a _ rest => .ok (a, rest.input)
  | .error _ => .error ()

@[simp] theorem choice_nil : (choice [] : Parser α) = fail := rfl

@[simp] theorem choice_cons (p : Parser α) (ps : List (Parser α)) :
    choice (p :: ps) = p.or (choice ps) := rfl

theorem manyFuel_succ (p : Parser α) (fuel : Nat) :
    p.manyFuel (fuel + 1) = (p.bind fun a => (p.manyFuel fuel).map (a :: ·)).or (value []) :=
  rfl

theorem bind_of_ok {p : Parser α} {f : α → Parser β} {s rest : State} {a : α} {consumed : Bool}
    (first : p s = .ok a consumed rest) :
    p.bind f s =
      match f a rest with
      | .ok b consumed' rest' => .ok b (consumed || consumed') rest'
      | .error consumed' => .error (consumed || consumed') := by
  simp only [bind, first]

theorem bind_of_error {p : Parser α} {f : α → Parser β} {s : State} {consumed : Bool}
    (first : p s = .error consumed) : p.bind f s = .error consumed := by
  simp only [bind, first]

/-- Everything a success of `bind` can come from. -/
theorem bind_eq_ok {p : Parser α} {f : α → Parser β} {s rest : State} {b : β} {consumed : Bool}
    (succeeded : p.bind f s = .ok b consumed rest) :
    ∃ a c₁ middle c₂, p s = .ok a c₁ middle ∧ f a middle = .ok b c₂ rest ∧
      consumed = (c₁ || c₂) := by
  cases first : p s with
  | error c => rw [bind_of_error first] at succeeded; cases succeeded
  | ok a c₁ middle =>
      rw [bind_of_ok first] at succeeded
      cases next : f a middle with
      | error c₂ => simp [next] at succeeded
      | ok b' c₂ rest' =>
          simp only [next, Reply.ok.injEq] at succeeded
          obtain ⟨rfl, rfl, rfl⟩ := succeeded
          exact ⟨a, c₁, middle, c₂, rfl, next, rfl⟩

theorem map_eq_ok {p : Parser α} {f : α → β} {s rest : State} {b : β} {consumed : Bool}
    (succeeded : p.map f s = .ok b consumed rest) : ∃ a, p s = .ok a consumed rest ∧ b = f a := by
  cases reply : p s with
  | error c => simp [map, reply] at succeeded
  | ok a c rest' =>
      simp only [map, reply, Reply.ok.injEq] at succeeded
      obtain ⟨rfl, rfl, rfl⟩ := succeeded
      exact ⟨a, rfl, rfl⟩

end Parser

end Combine
