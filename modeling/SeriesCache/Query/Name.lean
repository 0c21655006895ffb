import SeriesCache.Query.Reader
/-!
# Names and quoted texts

A name is written bare when it is a word of ASCII letters, digits and underscores that is not
reserved, and in double quotes otherwise.  Strings stand in single quotes.  Both kinds of
quotes follow one rule: a backslash stands before a backslash, before the quote, or before `n`
for a line break, and a line break itself cannot stand between quotes.

A regular expression stands between slashes.  Only the slash is written with a backslash; any
other backslash is part of the expression, where it has to stand between two ordinary
characters.
-/
namespace SeriesCache

/-! ## Quotes -/

namespace Quoted

def escape (quote c : Char) : Text :=
  if c = '\n' then ['\\', 'n'] else if c = '\\' ∨ c = quote then ['\\', c] else [c]

def text (quote : Char) (s : Text) : Text := quote :: s.flatMap (escape quote) ++ [quote]

/-- The text up to the closing quote, and what follows it. -/
def body? (quote : Char) : Text → Option (Text × Text)
  | [] => none
  | '\\' :: c :: s =>
    if c = '\\' ∨ c = quote then (body? quote s).map fun (t, rest) => (c :: t, rest)
    else if c = 'n' then (body? quote s).map fun (t, rest) => ('\n' :: t, rest)
    else none
  | c :: s =>
    if c = quote then some ([], s)
    else if c = '\\' ∨ c = '\n' then none
    else (body? quote s).map fun (t, rest) => (c :: t, rest)

def reader (quote : Char) : Reader Text
  | [] => .refused
  | c :: s =>
    if c = quote then
      match body? quote s with
      | some (t, rest) => .found t rest
      | none => .refused
    else .refused

end Quoted

/-! ## Regular expressions -/

namespace Regex

def text (r : Text) : Text :=
  '/' :: r.flatMap (fun c => if c = '/' then ['\\', '/'] else [c]) ++ ['/']

/-- Whether a character may stand in an expression on its own. -/
def isOrdinary (c : Char) : Bool := c != '\\' && c != '/' && c != '\n'

/-- The expression up to the closing slash, and what follows it; `inside` tells whether the
last character was an ordinary one. -/
def body? : Bool → Text → Option (Text × Text)
  | _, [] => none
  | _, '\\' :: '/' :: s => (body? false s).map fun (t, rest) => ('/' :: t, rest)
  | inside, '\\' :: c :: s =>
    if inside && isOrdinary c then
      (body? true s).map fun (t, rest) => ('\\' :: c :: t, rest)
    else none
  | _, '/' :: s => some ([], s)
  | _, c :: s =>
    if isOrdinary c then (body? true s).map fun (t, rest) => (c :: t, rest) else none

def reader : Reader Text
  | '/' :: s => match body? false s with
    | some (t, rest) => .found t rest
    | none => .refused
  | _ => .refused

end Regex

/-! ## Names -/

namespace Name

/-- The words that cannot be bare names. -/
def reserved : List Text :=
  ["AND".toList, "AS".toList, "ASC".toList, "BY".toList, "DESC".toList, "FILL".toList,
   "FROM".toList, "GROUP".toList, "LIMIT".toList, "OFFSET".toList, "OR".toList,
   "ORDER".toList, "SELECT".toList, "SLIMIT".toList, "SOFFSET".toList, "WHERE".toList]

def isReserved (w : Text) : Bool := reserved.any (Text.sameWord w)

/-- A name that is not quoted. -/
def bare : Reader Text := fun s =>
  if Text.startsWith Text.isWordStart s then
    let w := s.takeWhile Text.isWordPart
    if isReserved w then .refused else .found w (s.dropWhile Text.isWordPart)
  else .refused

/-- A name, with blanks in front. -/
def reader : Reader Text := do
  Reader.blanks
  bare <|> Quoted.reader '"'

def isBare (name : Text) : Bool :=
  Text.startsWith Text.isWordStart name && name.all Text.isWordPart && !isReserved name

def text (name : Text) : Text := if isBare name then name else Quoted.text '"' name

end Name
end SeriesCache
