import SeriesCache.Text
/-!
# Sorting by text

Items are sorted by a text each of them has.  Items with equal texts keep their order, and of
neighbours that are the same the first can be kept alone.
-/
namespace SeriesCache.Text

variable {α : Type}

def sortOn (key : α → Text) (items : List α) : List α :=
  items.mergeSort fun a b => !decide (key b < key a)

def dropRepeatsOf (same : α → α → Bool) (last : α) : List α → List α
  | [] => []
  | a :: items =>
    if same last a then dropRepeatsOf same last items else a :: dropRepeatsOf same a items

/-- The first of every run of neighbours that are the same. -/
def dropRepeats (same : α → α → Bool) : List α → List α
  | [] => []
  | a :: items => a :: dropRepeatsOf same a items

/-- One item for each text, in the order of the texts. -/
def distinctOn (key : α → Text) (items : List α) : List α :=
  dropRepeats (fun a b => key a == key b) (sortOn key items)

end SeriesCache.Text
