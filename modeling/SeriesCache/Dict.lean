import SeriesCache.Text
/-!
# Dictionaries

A dictionary is a list of entries with strictly ascending keys, so two dictionaries with the
same entries are equal, and listing the keys lists them in order.
-/
namespace SeriesCache

structure Dict (α : Type) where
  entries : List (Text × α)
  ascending : entries.Pairwise fun a b => a.1 < b.1
  deriving DecidableEq

namespace Dict

variable {α : Type}

def empty : Dict α := ⟨[], .nil⟩

instance : Inhabited (Dict α) := ⟨empty⟩

def isEmpty (d : Dict α) : Bool := d.entries.isEmpty

def size (d : Dict α) : Nat := d.entries.length

def keys (d : Dict α) : List Text := d.entries.map Prod.fst

def values (d : Dict α) : List α := d.entries.map Prod.snd

/-! ## Entries -/

def find? (k : Text) : List (Text × α) → Option α
  | [] => none
  | e :: es => if e.1 = k then some e.2 else find? k es

def put (k : Text) (v : α) : List (Text × α) → List (Text × α)
  | [] => [(k, v)]
  | e :: es =>
    if k < e.1 then (k, v) :: e :: es
    else if k = e.1 then (k, v) :: es
    else e :: put k v es

theorem mem_put {k : Text} {v : α} {es : List (Text × α)} {e : Text × α} (h : e ∈ put k v es) :
    e = (k, v) ∨ e ∈ es := by
  fun_induction put k v es with
  | case1 => simpa using h
  | case2 e' es _ => simpa using h
  | case3 e' es _ _ => rcases List.mem_cons.1 h with h | h <;> simp [h]
  | case4 e' es _ _ ih =>
    rcases List.mem_cons.1 h with rfl | h
    · simp
    · rcases ih h with h | h <;> simp [h]

theorem put_ascending {k : Text} {v : α} {es : List (Text × α)}
    (h : es.Pairwise fun a b => a.1 < b.1) : (put k v es).Pairwise fun a b => a.1 < b.1 := by
  fun_induction put k v es with
  | case1 => simp
  | case2 e es lt =>
    refine .cons (fun a ha => ?_) h
    rcases List.mem_cons.1 ha with rfl | ha
    · exact lt
    · exact List.lt_trans lt ((List.pairwise_cons.1 h).1 a ha)
  | case3 e es _ eq =>
    subst eq
    exact .cons (List.pairwise_cons.1 h).1 (List.pairwise_cons.1 h).2
  | case4 e es nlt ne ih =>
    refine .cons (fun a ha => ?_) (ih (List.pairwise_cons.1 h).2)
    rcases mem_put ha with rfl | ha
    · exact Decidable.byContradiction fun nlt' =>
        ne (List.le_antisymm (List.not_lt.1 nlt') (List.not_lt.1 nlt))
    · exact (List.pairwise_cons.1 h).1 a ha

/-! ## Operations -/

def get? (d : Dict α) (k : Text) : Option α := find? k d.entries

def contains (d : Dict α) (k : Text) : Bool := (d.get? k).isSome

def insert (d : Dict α) (k : Text) (v : α) : Dict α :=
  ⟨put k v d.entries, put_ascending d.ascending⟩

def filter (p : Text → Bool) (d : Dict α) : Dict α :=
  ⟨d.entries.filter fun e => p e.1, d.ascending.filter _⟩

def erase (d : Dict α) (k : Text) : Dict α := d.filter (· ≠ k)

/-- The entries in turn, a later one with the same key in place of an earlier one. -/
def ofList (es : List (Text × α)) : Dict α := es.foldl (fun d e => d.insert e.1 e.2) empty

/-- As `insert`, where the new value may depend on the old one. -/
def alter (d : Dict α) (k : Text) (f : Option α → α) : Dict α := d.insert k (f (d.get? k))

end Dict
end SeriesCache
