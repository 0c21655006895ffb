import SeriesCache.Proofs.Query.Again.Select
import SeriesCache.Proofs.Query.Findings
import SeriesCache.Proofs.Query.InstantSum
/-!
# Reading a window

A printed integer is read again as an operand (`Operand.reads_integer`), and so the condition of a window is one that is
read again (`Condition.fits_window`), alone or behind another.  A statement that is read without a condition is read over any
window (`Request.read_over`).
-/
namespace SeriesCache

open Reader
open Text (Lacks)

/-! ## Operands -/

namespace Operand

/-- An integer is read again as an operand: it is a sum of one term. -/
theorem reads_integer (n : Int64) : (ofExpr (.literal (.integer n))).Reads := by
  obtain ⟨hne, hblank⟩ := Signed.text_start n
  exact ⟨hne, hblank, InstantSum.again_text ⟨.integer n, []⟩⟩

end Operand

/-! ## Conditions -/

namespace Condition

open Request (timeComparison windowCondition)

theorem fits_timeComparison (op : Operator) (n : Int64) (level : Level) : (timeComparison op n).Fits Reads level := by
  cases level <;> exact Operand.reads_integer n

theorem fits_window (first last : Int64) : (windowCondition first last).Fits Reads .disjunction :=
  ⟨fits_timeComparison .ge first .conjunction, fits_timeComparison .le last .unit⟩

end Condition

/-- **A statement without a condition is asked over a window** as the request that it makes. -/
theorem Request.read_over {context : Context} {s : Select} {measurement : Text}
    (hname : s.source.name = .name measurement)
    (hread : Select.read { s with condition := none }.text = .ok { s with condition := none }) (first last : Int64) :
    read context { s with condition := some (windowCondition first last) }.text =
      .ok (ofFindings context measurement { s with condition := some (windowCondition first last) }
        ⟨.between first last, false, [], []⟩) := by
  have hselect := Select.read_withCondition (Scan.printed_of_read hread).fields hname hread
    (Condition.fits_window first last)
  refine read_eq_ok_iff.2 ⟨?_, _, measurement, _, hselect, hname, rfl, rfl⟩
  rw [Select.text_eq]
  rfl

end SeriesCache
