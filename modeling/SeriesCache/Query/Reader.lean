import SeriesCache.Query.Fault
/-!
# Readers

A reader looks at the text in front of it.  It finds a value and leaves the rest of the text,
or it refuses, and then another reader may try the same text, or it fails for good: the text
is at fault, and the rest of the text at the fault is kept to say where.

A list of items ends where the next item is refused (`many`, `separated`).  Every item takes
at least one character, so the length of the text bounds their number.
-/
namespace SeriesCache

inductive Outcome (α : Type) where
  | found (value : α) (rest : Text)
  | refused
  | failed (fault : Fault) (rest : Text)
  deriving DecidableEq

def Reader (α : Type) := Text → Outcome α

namespace Reader

variable {α β : Type}

protected def pure (a : α) : Reader α := fun s => .found a s

protected def bind (p : Reader α) (f : α → Reader β) : Reader β := fun s =>
  match p s with
  | .found a rest => f a rest
  | .refused => .refused
  | .failed fault rest => .failed fault rest

instance : Monad Reader where
  pure := Reader.pure
  bind := Reader.bind

def refuse : Reader α := fun _ => .refused

/-- The second reader tries where the first refuses. -/
def orElse (p q : Reader α) : Reader α := fun s =>
  match p s with
  | .refused => q s
  | outcome => outcome

instance : OrElse (Reader α) := ⟨fun p q => p.orElse (q ())⟩

/-- Where the reader refuses, the text is at fault. -/
def must (fault : Fault) (p : Reader α) : Reader α := fun s =>
  match p s with
  | .refused => .failed fault s
  | outcome => outcome

/-- What the reader finds has to have an image, or the text it was found in is at fault. -/
def convert (fault : Fault) (p : Reader α) (f : α → Option β) : Reader β := fun s =>
  match p s with
  | .found a rest => match f a with
    | some b => .found b rest
    | none => .failed fault s
  | .refused => .refused
  | .failed fault rest => .failed fault rest

def optional (p : Reader α) : Reader (Option α) := some <$> p <|> pure none

def manyWithin : Nat → Reader α → Reader (List α)
  | 0, _ => pure []
  | n + 1, p => (do
      let a ← p
      let as ← manyWithin n p
      return a :: as) <|> pure []

/-- As many items as there are. -/
def many (p : Reader α) : Reader (List α) := fun s => manyWithin s.length p s

/-- At least one item, with a separator between any two. -/
def separated (separator : Reader Unit) (p : Reader α) : Reader (List α) := do
  let a ← p
  let as ← many (do separator; p)
  return a :: as

/-- Items joined by operators, combined from the left. -/
def chain (p : Reader α) (operator : Reader (α → α → α)) : Reader α := do
  let a ← p
  let steps ← many (do
    let f ← operator
    let b ← p
    return (f, b))
  return steps.foldl (fun a (f, b) => f a b) a

/-- What the reader finds, together with the text it takes. -/
def withText (p : Reader α) : Reader (Text × α) := fun s =>
  match p s with
  | .found a rest => .found (s.take (s.length - rest.length), a) rest
  | .refused => .refused
  | .failed fault rest => .failed fault rest

/-! ## Characters and words -/

/-- A text to the letter. -/
def exactly (t : Text) : Reader Unit := fun s =>
  match Text.dropPrefix? t s with
  | some rest => .found () rest
  | none => .refused

def char (c : Char) : Reader Unit := exactly [c]

def blanks : Reader Unit := fun s => .found () (Text.dropBlanks s)

def someBlanks : Reader Unit := fun s =>
  if Text.startsWith Text.isBlank s then .found () (Text.dropBlanks s) else .refused

/-- At least one digit. -/
def digits : Reader Text := fun s =>
  let (ds, rest) := (s.takeWhile Char.isDigit, s.dropWhile Char.isDigit)
  if ds = [] then .refused else .found ds rest

/-- Nothing, provided that no word goes on here. -/
def wordEnd : Reader Unit := fun s =>
  if Text.startsWith Text.isWordPart s then .refused else .found () s

/-- A word in either case that is not the start of a longer one. -/
def word (w : Text) : Reader Unit := fun s =>
  match Text.dropPrefixAnyCase? w s with
  | some rest => wordEnd rest
  | none => .refused

def comma : Reader Unit := do blanks; char ','

def parenthesized (p : Reader α) : Reader α := do
  char '('; blanks
  let a ← p
  blanks; char ')'
  return a

end Reader
end SeriesCache
