import SeriesCache.Query.Literal
import SeriesCache.Time.Instant
/-!
# Operands

The right side of a comparison is a sum: terms joined by `+` and `-` from the left.  A term is
a call, a literal or a name.  An operand keeps the text it was read from.

`Expr.instant?` gives the instant that an operand stands for when the comparison is about time.
A sum that leaves the 64 bits at any step has none.
-/
namespace SeriesCache

inductive Sign where
  | plus
  | minus
  deriving DecidableEq

def Sign.text : Sign → Text
  | plus => ['+']
  | minus => ['-']

inductive Expr where
  | literal (value : Literal)
  | name (name : Text)
  | call (function : Text) (args : List Expr)
  | sum (left : Expr) (sign : Sign) (right : Expr)

namespace Expr

mutual

def text : Expr → Text
  | literal l => l.text
  | name n => Name.text n
  | call f args => f ++ '(' :: argsText args ++ [')']
  | sum a sign b => a.text ++ ' ' :: sign.text ++ ' ' :: b.text

def argsText : List Expr → Text
  | [] => []
  | [a] => a.text
  | a :: b :: args => a.text ++ ',' :: ' ' :: argsText (b :: args)

end

/-- The instant an expression stands for; `now()` is the one given. -/
def instant? (now : Int64) : Expr → Option Int64
  | literal (.integer n) => some n
  | literal (.float x) => if x.isFinite then some x.toInt64 else none
  | literal (.string s) => Instant.read? s
  | literal (.duration d) => some d.nanos
  | literal _ => none
  | name _ => none
  | call f args => if Text.sameWord f "now".toList && args.isEmpty then some now else none
  | sum a sign b => do
    let a ← a.instant? now
    let b ← b.instant? now
    match sign with
    | .plus => Signed.add? a b
    | .minus => Signed.sub? a b

/-! ## Reading -/

open Reader

def signReader : Reader Sign :=
  (do char '+'; return .plus) <|> (do char '-'; return .minus)

/-- A call; the function's name is kept in lower case. -/
def callReader (arg : Reader Expr) : Reader Expr := do
  let function ← Name.bare
  blanks; char '('
  let args ← separated comma (do blanks; arg) <|> pure []
  blanks; char ')'
  return call (Text.lower function) args

def termReader (arg : Reader Expr) : Reader Expr :=
  callReader arg <|> literal <$> Literal.reader <|> name <$> Name.reader

/-- A sum with calls nested at most so deep. -/
def readerWithin : Nat → Reader Expr
  | 0 => refuse
  | depth + 1 => chain (termReader (readerWithin depth)) do
      blanks
      let sign ← signReader
      blanks
      return fun a b => sum a sign b

/-- A sum.  Each nested call takes a character of the text, which bounds their depth. -/
def reader : Reader Expr := fun s => readerWithin (s.length + 1) s

end Expr

/-- The right side of a comparison, with the text it was read from. -/
structure Operand where
  text : Text
  expr : Expr

namespace Operand

def ofExpr (e : Expr) : Operand := ⟨e.text, e⟩

def reader : Reader Operand := do
  let (text, expr) ← Reader.withText Expr.reader
  return ⟨Text.trim text, expr⟩

end Operand
end SeriesCache
