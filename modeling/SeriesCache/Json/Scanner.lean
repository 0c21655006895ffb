import SeriesCache.Number.Binary64
import SeriesCache.Text.Utf8
/-!
# Scanning JSON

JSON is read from the front, and the first thing that is wrong decides the fault: the text is
no JSON, or it is but holds something else than what is wanted there, or it ends too early.
Blanks between the parts are skipped.

A number without a fraction and an exponent is an integer when it fits 64 bits.  Every other
number is a float: the digits that fit 64 bits, times or divided by a power of ten, each step
rounded.
-/
namespace SeriesCache

inductive JsonFault where
  | badSyntax
  | wrongData
  | endsEarly
  deriving DecidableEq

abbrev JsonReader := StateT Text (Except JsonFault)

namespace JsonReader

variable {α σ : Type}

/-- The next character that is no blank; it is not taken. -/
def peek : JsonReader Char := do
  let s := Text.dropBlanks (← get)
  set s
  match s with
  | [] => throw .endsEarly
  | c :: _ => return c

def skip : JsonReader Unit := modify List.tail

/-- The rest of a word of which the first letter is known. -/
def letters : Text → JsonReader Unit
  | [] => return
  | c :: w => do
    match ← get with
    | [] => throw .endsEarly
    | d :: s => if c = d then do set s; letters w else throw .badSyntax

def colon : JsonReader Unit := do
  if (← peek) = ':' then skip else throw .badSyntax

/-! ## Strings -/

def hexValue? (c : Char) : Option Nat :=
  if c.isDigit then some (c.toNat - 48)
  else if 'a' ≤ c ∧ c ≤ 'f' then some (c.toNat - 87)
  else if 'A' ≤ c ∧ c ≤ 'F' then some (c.toNat - 55)
  else none

/-- Four hexadecimal digits.  Whether there is room for four is counted in bytes. -/
def hex4 (s : Text) : Except JsonFault (Nat × Text) :=
  match s with
  | a :: b :: c :: d :: rest =>
    match hexValue? a, hexValue? b, hexValue? c, hexValue? d with
    | some a, some b, some c, some d => .ok (((a * 16 + b) * 16 + c) * 16 + d, rest)
    | _, _, _, _ => .error .badSyntax
  | s => .error (if 4 ≤ Utf8.size s then .badSyntax else .endsEarly)

/-- The second half of a pair of surrogates, of which the first half is known. -/
def lowSurrogate (high : Nat) : Text → Except JsonFault (Char × Text)
  | '\\' :: 'u' :: s => do
    let (low, rest) ← hex4 s
    if 0xDC00 ≤ low ∧ low ≤ 0xDFFF then
      return (Char.ofNat ((high - 0xD800) * 1024 + (low - 0xDC00) + 0x10000), rest)
    else .error .badSyntax
  | [] | ['\\'] => .error .endsEarly
  | _ => .error .badSyntax

/-- The character of an escape, after its backslash.  When the string does not matter, neither
do surrogates. -/
def escape (strict : Bool) : Text → Except JsonFault (Char × Text)
  | [] => .error .endsEarly
  | 'u' :: s => do
    let (n, rest) ← hex4 s
    if !strict then return (Char.ofNat n, rest)
    else if 0xDC00 ≤ n ∧ n ≤ 0xDFFF then .error .badSyntax
    else if 0xD800 ≤ n ∧ n ≤ 0xDBFF then lowSurrogate n rest
    else return (Char.ofNat n, rest)
  | c :: s =>
    match [('"', '"'), ('\\', '\\'), ('/', '/'), ('b', '\x08'), ('f', '\x0c'), ('n', '\n'),
      ('r', '\r'), ('t', '\t')].lookup c with
    | some d => .ok (d, s)
    | none => .error .badSyntax

/-- The characters up to the closing quote, each of which takes one of the text at least. -/
def stringWithin (strict : Bool) : Nat → Text → Except JsonFault (Text × Text)
  | _, [] => .error .endsEarly
  | 0, _ :: _ => .error .endsEarly
  | n + 1, c :: s =>
    if c = '"' then .ok ([], s)
    else if c = '\\' then do
      let (d, rest) ← escape strict s
      let (t, rest) ← stringWithin strict n rest
      return (d :: t, rest)
    else if c.toNat < 32 then .error .badSyntax
    else do
      let (t, rest) ← stringWithin strict n s
      return (c :: t, rest)

def stringBody (strict : Bool) : JsonReader Text := fun s => stringWithin strict s.length s

/-! ## Numbers -/

inductive Number where
  | natural (n : Nat)
  | negative (n : Nat)
  | float (x : Binary64)
  deriving DecidableEq

/-- The digits that still fit 64 bits after a number, and how many they are. -/
def absorb (significand : Nat) : Text → Nat × Nat
  | [] => (significand, 0)
  | c :: s =>
    let next := significand * 10 + (c.toNat - 48)
    if next < 0x10000000000000000 then
      let (n, count) := absorb next s
      (n, count + 1)
    else (significand, 0)

/-- The greatest power of ten that a number is divided by at once. -/
def greatestPower : Nat := 308

def powerOfTen (n : Nat) : Binary64 := Binary64.ofDecimal false 1 n

/-- A float times a power of ten, in steps; one that grows without bound is no number. -/
def scaled : Nat → Binary64 → Int → Option Binary64
  | steps, x, exponent =>
    if exponent.natAbs ≤ greatestPower then
      if 0 ≤ exponent then
        let y := x.mul (powerOfTen exponent.toNat)
        if y.isInfinite then none else some y
      else some (x.div (powerOfTen exponent.natAbs))
    else if x.isZero then some x
    else if 0 ≤ exponent then none
    else match steps with
      | 0 => some .zero
      | steps + 1 =>
        scaled steps (x.div (powerOfTen greatestPower)) (exponent + greatestPower)

/-- A float by its digits and its exponent.  Three steps bring the greatest of 64 bits down to
zero. -/
def float (negative : Bool) (significand : Nat) (exponent : Int) : JsonReader Number :=
  match scaled 3 (Binary64.ofInt significand) exponent with
  | some x => return .float (if negative then x.negate else x)
  | none => throw .badSyntax

def digits : JsonReader Text := fun s => .ok (s.takeWhile Char.isDigit, s.dropWhile Char.isDigit)

/-- An exponent past 2^31 leaves a zero alone, and makes zero of anything when it is negative. -/
def exponentPart (negative : Bool) (significand : Nat) (start : Int) : JsonReader Number := do
  let down ← match ← get with
    | '+' :: s => do set s; pure false
    | '-' :: s => do set s; pure true
    | _ => pure false
  let ds ← digits
  if ds.isEmpty then
    if (← get).isEmpty then throw .endsEarly else throw .badSyntax
  else
    let n := Nat.ofDigitChars 10 ds 0
    if 0x80000000 ≤ n then
      if significand ≠ 0 ∧ !down then throw .badSyntax
      else return .float (Binary64.ofMagnitude negative 0)
    else float negative significand (if down then start - n else start + n)

def isExponentMark (c : Char) : Bool := c == 'e' || c == 'E'

/-- What may follow the digits before the point: a fraction, an exponent, both or nothing. -/
def afterWhole (negative : Bool) (significand : Nat) (dropped : Nat) : JsonReader Number := do
  match ← get with
  | '.' :: s =>
    set s
    let ds ← digits
    if ds.isEmpty then
      if (← get).isEmpty then throw .endsEarly else throw .badSyntax
    else
      let (significand, count) := absorb significand ds
      let exponent : Int := dropped - count
      if Text.startsWith isExponentMark (← get) then do
        skip
        exponentPart negative significand exponent
      else float negative significand exponent
  | c :: s =>
    if isExponentMark c then do
      set s
      exponentPart negative significand dropped
    else whole
  | [] => whole
where
  whole : JsonReader Number :=
    if dropped ≠ 0 then float negative significand dropped
    else if !negative then return .natural significand
    else if significand = 0 ∨ 0x8000000000000000 < significand then
      return .float (Binary64.ofInt significand).negate
    else return .negative significand

def number (negative : Bool) : JsonReader Number := do
  match ← get with
  | [] => throw .endsEarly
  | c :: s =>
    if c = '0' then do
      set s
      if Text.startsWith Char.isDigit s then throw .badSyntax else afterWhole negative 0 0
    else if c.isDigit then do
      let ds ← digits
      let (significand, count) := absorb 0 ds
      afterWhole negative significand (ds.length - count)
    else throw .badSyntax

def numberFrom (c : Char) : JsonReader Number := do
  if c = '-' then skip; number true else number false

/-! ## Sequences and members -/

def moreWithin (item : JsonReader α) : Nat → JsonReader (List α)
  | 0 => throw .endsEarly
  | n + 1 => do
    match ← peek with
    | ']' => skip; return []
    | ',' =>
      skip
      if (← peek) = ']' then throw .badSyntax
      let a ← item
      let as ← moreWithin item n
      return a :: as
    | _ => throw .badSyntax

/-- The items of an array after its bracket.  Each takes a comma at least. -/
def items (item : JsonReader α) : JsonReader (List α) := do
  if (← peek) = ']' then skip; return []
  let a ← item
  let as ← moreWithin item ((← get).length + 1)
  return a :: as

def membersWithin (key : JsonReader Text) (member : σ → Text → JsonReader σ) :
    Nat → σ → JsonReader σ
  | 0, _ => throw .endsEarly
  | n + 1, state => do
    if (← peek) ≠ '"' then throw .badSyntax
    skip
    let state ← member state (← key)
    match ← peek with
    | '}' => skip; return state
    | ',' => skip; membersWithin key member n state
    | _ => throw .badSyntax

/-- The members of an object after its brace.  `member` is given each key, and reads the colon
and the value. -/
def members (key : JsonReader Text) (member : σ → Text → JsonReader σ) (state : σ) :
    JsonReader σ := do
  if (← peek) = '}' then skip; return state
  membersWithin key member ((← get).length + 1) state

/-- The fields of a record written as an array after its bracket, in order; the last ones may be
missing. -/
def positional (first : Bool) : List (σ → JsonReader σ) → σ → JsonReader σ
  | [], state => do
    if (← peek) = ']' then skip; return state
    throw .badSyntax
  | field :: fields, state => do
    match ← peek with
    | ']' => skip; return state
    | c =>
      if !first then
        if c ≠ ',' then throw .badSyntax
        skip
        if (← peek) = ']' then throw .badSyntax
      let state ← field state
      positional false fields state

/-! ## Values -/

/-- A value that is not wanted here is at fault once it is known to be one. -/
def reject : JsonReader α := do
  match ← peek with
  | 'n' => skip; letters "ull".toList
  | 't' => skip; letters "rue".toList
  | 'f' => skip; letters "alse".toList
  | '"' => skip; let _ ← stringBody true
  | '[' | '{' => pure ()
  | c => if c = '-' ∨ c.isDigit then let _ ← numberFrom c else throw .badSyntax
  throw .wrongData

def string : JsonReader Text := do
  if (← peek) = '"' then skip; stringBody true else reject

def array (item : JsonReader α) : JsonReader (List α) := do
  if (← peek) = '[' then skip; items item else reject

/-- A record: an object with members in any order, or an array of its fields in order. -/
def record (fields : List (σ → JsonReader σ)) (member : σ → Text → JsonReader σ) (state : σ) :
    JsonReader σ := do
  match ← peek with
  | '[' => skip; positional true fields state
  | '{' => skip; members (stringBody true) member state
  | _ => reject

/-- A number that does not matter.  It is not asked whether it has a value, and one that ends
too early is no number. -/
def ignoreNumber : JsonReader Unit := do
  let ds ← digits
  if ds.isEmpty ∨ (ds.head? = some '0' ∧ 1 < ds.length) then throw .badSyntax
  match ← get with
  | '.' :: s =>
    set s
    if (← digits).isEmpty then throw .badSyntax
  | _ => pure ()
  match ← get with
  | c :: s =>
    if isExponentMark c then
      set (match s with | '+' :: s => s | '-' :: s => s | s => s)
      if (← digits).isEmpty then throw .badSyntax
  | [] => pure ()

/-- A value that does not matter; each array or object in it takes a character. -/
def ignoreWithin : Nat → JsonReader Unit
  | 0 => throw .endsEarly
  | n + 1 => do
    match ← peek with
    | 'n' => skip; letters "ull".toList
    | 't' => skip; letters "rue".toList
    | 'f' => skip; letters "alse".toList
    | '"' => skip; let _ ← stringBody false
    | '[' => skip; let _ ← items (ignoreWithin n)
    | '{' => skip; members (stringBody false) (fun _ _ => do colon; ignoreWithin n) ()
    | '-' => skip; ignoreNumber
    | c => if c.isDigit then ignoreNumber else throw .badSyntax

def ignoreValue : JsonReader Unit := do ignoreWithin ((← get).length + 1)

/-- What a text holds, if there is nothing but blanks after it. -/
def run (p : JsonReader α) (s : Text) : Except JsonFault α := do
  let (a, rest) ← p s
  if Text.dropBlanks rest = [] then return a else throw .badSyntax

end JsonReader
end SeriesCache
