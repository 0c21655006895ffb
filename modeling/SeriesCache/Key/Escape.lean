import SeriesCache.Text
/-!
# Escaped texts

Names and values inside a key are written with a backslash before every character that means
something there: the delimiters, the characters of operators, and in the name of a measurement
the point too.  A key is taken apart at characters that are not escaped.
-/
namespace SeriesCache.Escaped

inductive Place where
  | measurement
  | name
  deriving DecidableEq

def isDelimiter (c : Char) : Bool := ['\\', ' ', ',', '(', ')', '{', '}', '#', '[', ']'].contains c

def isOperatorChar (c : Char) : Bool := ['=', '!', '<', '>', '~'].contains c

def isSpecial (place : Place) (c : Char) : Bool :=
  isDelimiter c || isOperatorChar c || (place == .measurement && c == '.')

def escapeChar (place : Place) (c : Char) : Text := if isSpecial place c then ['\\', c] else [c]

def escape (place : Place) (s : Text) : Text := s.flatMap (escapeChar place)

/-- The text without the backslashes that escape.  One at the end stands for itself. -/
def unescape : Text → Text
  | '\\' :: c :: s => c :: unescape s
  | c :: s => c :: unescape s
  | [] => []

/-! ## Taking apart -/

/-- A text before and from its first character of a class that is not escaped. -/
def cut? (p : Char → Bool) : Text → Option (Text × Text)
  | [] => none
  | '\\' :: c :: s => (cut? p s).map fun (a, b) => ('\\' :: c :: a, b)
  | c :: s =>
    if c ≠ '\\' ∧ p c then some ([], c :: s) else (cut? p s).map fun (a, b) => (c :: a, b)

/-- A text before and from its last character of a class that is not escaped. -/
def cutLast? (p : Char → Bool) : Text → Option (Text × Text)
  | [] => none
  | '\\' :: c :: s => (cutLast? p s).map fun (a, b) => ('\\' :: c :: a, b)
  | c :: s => match cutLast? p s with
    | some (a, b) => some (c :: a, b)
    | none => if c ≠ '\\' ∧ p c then some ([], c :: s) else none

/-- More characters for the first of some parts. -/
def extend (start : Text) : List Text → List Text
  | [] => [start]
  | part :: parts => (start ++ part) :: parts

/-- The parts of a text between separators that are not escaped. -/
def split (separator : Char) : Text → List Text
  | [] => [[]]
  | '\\' :: c :: s => extend ['\\', c] (split separator s)
  | c :: s => if c = separator then [] :: split separator s else extend [c] (split separator s)

def groupsWithin : Nat → Text → Option (List Text)
  | _, [] => some []
  | n + 1, '(' :: s => match cut? (· == ')') s with
    | some (group, _ :: rest) => (groupsWithin n rest).map (group :: ·)
    | _ => none
  | _, _ => none

/-- What stands between the parentheses of a sequence of groups.  A group takes two characters
at least, so the length of the text bounds their number. -/
def groups? (s : Text) : Option (List Text) := groupsWithin s.length s

def braced? : Text → Option Text
  | '{' :: s => if s.getLast? = some '}' then some s.dropLast else none
  | _ => none

end SeriesCache.Escaped
