import SeriesCache.Query.Operand
/-!
# Conditions

A condition is a tree of comparisons joined by AND and OR, with the parentheses of its text
kept.  It can be pruned of all comparisons on one name (`without`), listed as its nodes from
the left (`nodes`), and held against what its comparisons are worth (`holds`).
-/
namespace SeriesCache

/-! ## Operators -/

inductive Operator where
  | eq
  | ne
  | matching
  | notMatching
  | lt
  | le
  | gt
  | ge
  deriving DecidableEq

namespace Operator

def text : Operator → Text
  | eq => ['=']
  | ne => ['!', '=']
  | matching => ['=', '~']
  | notMatching => ['!', '~']
  | lt => ['<']
  | le => ['<', '=']
  | gt => ['>']
  | ge => ['>', '=']

/-- All operators, none after a prefix of it. -/
def all : List Operator := [matching, notMatching, ne, ge, le, eq, gt, lt]

/-- The place of an operator in the order of operators. -/
def rank : Operator → Nat
  | eq => 0
  | ne => 1
  | matching => 2
  | notMatching => 3
  | lt => 4
  | le => 5
  | gt => 6
  | ge => 7

/-- The longest operator at the front of a text, and what follows it. -/
def prefix? (s : Text) : Option (Operator × Text) :=
  all.findSome? fun op => (Text.dropPrefix? op.text s).map (op, ·)

/-- The spellings in a condition, where `<>` is another one of `!=`. -/
def spellings : List (Text × Operator) :=
  [(['=', '~'], matching), (['!', '~'], notMatching), (['!', '='], ne), (['<', '>'], ne),
   (['>', '='], ge), (['<', '='], le), (['='], eq), (['>'], gt), (['<'], lt)]

def reader : Reader Operator := fun s =>
  match spellings.findSome? fun (t, op) => (Text.dropPrefix? t s).map (op, ·) with
  | some (op, rest) => .found op rest
  | none => .refused

end Operator

/-! ## Comparisons and conditions -/

structure Comparison where
  name : Text
  operator : Operator
  operand : Operand

namespace Comparison

def text (c : Comparison) : Text :=
  Name.text c.name ++ ' ' :: c.operator.text ++ ' ' :: c.operand.text

/-- Whether the comparison is about the name, in either case. -/
def isOn (c : Comparison) (name : Text) : Bool := Text.sameWord c.name name

end Comparison

inductive Connective where
  | and
  | or
  deriving DecidableEq

def Connective.text : Connective → Text
  | and => "AND".toList
  | or => "OR".toList

inductive Condition where
  | comparison (c : Comparison)
  | joined (left : Condition) (connective : Connective) (right : Condition)
  | group (inner : Condition)

namespace Condition

def text : Condition → Text
  | comparison c => c.text
  | joined a op b => a.text ++ ' ' :: op.text ++ ' ' :: b.text
  | group a => '(' :: a.text ++ [')']

/-- Two prunings joined again; one that is gone leaves the other. -/
def join? (op : Connective) : Option Condition → Option Condition → Option Condition
  | some a, some b => some (joined a op b)
  | some a, none => some a
  | none, b => b

/-- The condition without the comparisons on a name, or nothing when none is left. -/
def without (name : Text) : Condition → Option Condition
  | comparison c => if c.isOn name then none else some (comparison c)
  | joined a op b => join? op (a.without name) (b.without name)
  | group a => (a.without name).map group

/-- The comparisons from left to right. -/
def comparisons : Condition → List Comparison
  | comparison c => [c]
  | joined a _ b => a.comparisons ++ b.comparisons
  | group a => a.comparisons

/-- Whether the condition is true, given which comparisons are. -/
def holds (isTrue : Comparison → Bool) : Condition → Bool
  | comparison c => isTrue c
  | joined a .and b => a.holds isTrue && b.holds isTrue
  | joined a .or b => a.holds isTrue || b.holds isTrue
  | group a => a.holds isTrue

/-! ## Nodes -/

/-- The part that a comparison has in the nearest join around it. -/
inductive Role where
  | conjunct
  | disjunct
  | alone
  deriving DecidableEq

def Role.text : Role → Text
  | conjunct => "AND".toList
  | disjunct => "OR".toList
  | alone => []

def Role.ofConnective : Connective → Role
  | .and => conjunct
  | .or => disjunct

/-- A node as it is met: a comparison also with its role, and whether an OR is around it. -/
inductive Node where
  | comparison (c : Comparison) (role : Role) (underOr : Bool)
  | joined (left : Condition) (connective : Connective) (right : Condition)
  | group (inner : Condition)

/-- The nodes below a place with this role, a join before its two sides. -/
def nodesAt (role : Role) (underOr : Bool) : Condition → List Node
  | comparison c => [.comparison c role underOr]
  | joined a op b =>
    let inOr := underOr || op == .or
    .joined a op b :: a.nodesAt (.ofConnective op) inOr ++ b.nodesAt (.ofConnective op) inOr
  | group a => .group a :: a.nodesAt role underOr

def nodes (c : Condition) : List Node := c.nodesAt .alone false

/-- A walk over the nodes below a place that may stop early. -/
def walkAt {σ β : Type} (visit : σ → Node → Except β σ) (role : Role) (underOr : Bool) :
    σ → Condition → Except β σ
  | state, comparison c => visit state (.comparison c role underOr)
  | state, joined a op b => do
    let inOr := underOr || op == .or
    let state ← visit state (.joined a op b)
    let state ← walkAt visit (.ofConnective op) inOr state a
    walkAt visit (.ofConnective op) inOr state b
  | state, group a => do
    let state ← visit state (.group a)
    walkAt visit role underOr state a

def walk {σ β : Type} (visit : σ → Node → Except β σ) (start : σ) (c : Condition) :
    Except β σ :=
  walkAt visit .alone false start c

/-! ## Reading -/

open Reader

def comparisonReader : Reader Comparison := do
  let name ← Name.reader
  blanks
  let operator ← Operator.reader
  let operand ← must .noOperand (do blanks; Operand.reader)
  return ⟨name, operator, operand⟩

def unitReader (inner : Reader Condition) : Reader Condition := do
  blanks
  (do
    char '('
    let c ← inner
    must .openGroup (do blanks; char ')')
    return group c) <|> comparison <$> comparisonReader

/-- Conditions joined from the left by one connective. -/
def joinReader (op : Connective) (item : Reader Condition) : Reader Condition := do
  let first ← item
  let others ← many (do
    blanks; word op.text; blanks
    must .noConditionPart item)
  return others.foldl (fun a b => joined a op b) first

/-- A condition with parentheses nested at most so deep. -/
def readerWithin : Nat → Reader Condition
  | 0 => refuse
  | depth + 1 => joinReader .or (joinReader .and (unitReader (readerWithin depth)))

/-- A condition, where AND binds tighter than OR. -/
def reader : Reader Condition := fun s => readerWithin (s.length + 1) s

end Condition
end SeriesCache
