import SeriesCache.Query.Select
/-!
# Equality of statements

Expressions hold lists of expressions, so their equality is decided side by side with that of such lists
(`Expr.same`, `FieldExpr.same`).  Everything above them is compared part by part, up to whole statements.
-/
namespace SeriesCache

/-! ## Operands -/

namespace Expr

mutual

def same : Expr → Expr → Bool
  | literal l, literal m => l == m
  | name n, name m => n == m
  | call f as, call g bs => f == g && sameArgs as bs
  | sum a s b, sum c t d => same a c && s == t && same b d
  | _, _ => false

def sameArgs : List Expr → List Expr → Bool
  | [], [] => true
  | a :: as, b :: bs => same a b && sameArgs as bs
  | _, _ => false

end

mutual

theorem same_iff : ∀ a b : Expr, same a b = true ↔ a = b
  | literal l, b => by cases b <;> simp [same]
  | name n, b => by cases b <;> simp [same]
  | call f as, b => by
    cases b with
    | call g bs => simp [same, sameArgs_iff as bs]
    | _ => simp [same]
  | sum a s b, c => by
    cases c with
    | sum c t d => simp [same, same_iff a c, same_iff b d, and_assoc]
    | _ => simp [same]

theorem sameArgs_iff : ∀ as bs : List Expr, sameArgs as bs = true ↔ as = bs
  | [], bs => by cases bs <;> simp [sameArgs]
  | a :: as, bs => by
    cases bs with
    | nil => simp [sameArgs]
    | cons b bs => simp [sameArgs, same_iff a b, sameArgs_iff as bs]

end

instance : DecidableEq Expr := fun a b => decidable_of_iff _ (same_iff a b)

end Expr

deriving instance DecidableEq for Operand
deriving instance DecidableEq for Comparison
deriving instance DecidableEq for Condition

/-! ## Fields -/

namespace FieldExpr

mutual

def same : FieldExpr → FieldExpr → Bool
  | wildcard, wildcard => true
  | name n t, name m u => n == m && t == u
  | call f as, call g bs => f == g && sameArgs as bs
  | literal l, literal m => l == m
  | _, _ => false

def sameArgs : List FieldExpr → List FieldExpr → Bool
  | [], [] => true
  | a :: as, b :: bs => same a b && sameArgs as bs
  | _, _ => false

end

mutual

theorem same_iff : ∀ a b : FieldExpr, same a b = true ↔ a = b
  | wildcard, b => by cases b <;> simp [same]
  | name n t, b => by cases b <;> simp [same]
  | call f as, b => by
    cases b with
    | call g bs => simp [same, sameArgs_iff as bs]
    | _ => simp [same]
  | literal l, b => by cases b <;> simp [same]

theorem sameArgs_iff : ∀ as bs : List FieldExpr, sameArgs as bs = true ↔ as = bs
  | [], bs => by cases bs <;> simp [sameArgs]
  | a :: as, bs => by
    cases bs with
    | nil => simp [sameArgs]
    | cons b bs => simp [sameArgs, same_iff a b, sameArgs_iff as bs]

end

instance : DecidableEq FieldExpr := fun a b => decidable_of_iff _ (same_iff a b)

end FieldExpr

deriving instance DecidableEq for Field

/-! ## Statements -/

deriving instance DecidableEq for Select

end SeriesCache
