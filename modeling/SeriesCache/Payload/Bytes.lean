import SeriesCache.Text.Utf8
/-!
# Numbers and texts as bytes

Whole numbers are written in a fixed number of bytes, the most significant first.  A text that
has to fit a number of bytes is cut between two characters.
-/
namespace SeriesCache

/-- The low `width` bytes of a number, most significant first. -/
def bigEndian : Nat → Nat → Bytes
  | 0, _ => []
  | width + 1, n => bigEndian width (n / 256) ++ [UInt8.ofNat (n % 256)]

/-- The number that bytes spell, most significant first. -/
def ofBigEndian (bytes : Bytes) : Nat := bytes.foldl (fun n b => n * 256 + b.toNat) 0

/-- The first `n` bytes and those after them, when there are that many. -/
def splitBytes? : Nat → Bytes → Option (Bytes × Bytes)
  | 0, bytes => some ([], bytes)
  | _ + 1, [] => none
  | n + 1, b :: bytes => (splitBytes? n bytes).map fun (front, rest) => (b :: front, rest)

/-- What follows the bytes `front`, if they stand in front. -/
def dropBytes? : Bytes → Bytes → Option Bytes
  | [], bytes => some bytes
  | _ :: _, [] => none
  | a :: front, b :: bytes => if a = b then dropBytes? front bytes else none

/-- The longest start of a text that takes at most so many bytes. -/
def Text.within : Nat → Text → Text
  | _, [] => []
  | limit, c :: s => if c.utf8Size ≤ limit then c :: within (limit - c.utf8Size) s else []

/-- The bytes up to the last one that is not zero. -/
def dropZeros (bytes : Bytes) : Bytes := (bytes.reverse.dropWhile (· == 0)).reverse

/-! ## Laws -/

theorem length_bigEndian (width n : Nat) : (bigEndian width n).length = width := by
  induction width generalizing n with
  | zero => rfl
  | succ width ih => simp [bigEndian, ih]

theorem splitBytes?_append (front rest : Bytes) :
    splitBytes? front.length (front ++ rest) = some (front, rest) := by
  induction front with
  | nil => rfl
  | cons b front ih => simp [splitBytes?, ih]

end SeriesCache
