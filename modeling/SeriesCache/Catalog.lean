import SeriesCache.Series.Answer
/-!
# Catalogs

A catalog knows the tag keys and the field types of every measurement of a database.  It is
built up entry by entry, or from an engine's lists of tag keys and field keys, where each table
is one measurement and a row of another shape is passed over.
-/
namespace SeriesCache

structure Schema where
  tags : Dict Unit
  fields : Dict CellType
  deriving DecidableEq

def Schema.empty : Schema := ⟨.empty, .empty⟩

structure Catalog where
  measurements : Dict Schema
  deriving DecidableEq

namespace Catalog

def empty : Catalog := ⟨.empty⟩

def alter (c : Catalog) (measurement : Text) (f : Schema → Schema) : Catalog :=
  ⟨c.measurements.alter measurement fun s => f (s.getD .empty)⟩

/-- The catalog where a measurement has these tag keys also. -/
def withTags (c : Catalog) (measurement : Text) (tags : List Text) : Catalog :=
  c.alter measurement fun s => { s with tags := tags.foldl (fun d t => d.insert t ()) s.tags }

def withField (c : Catalog) (measurement field : Text) (type : CellType) : Catalog :=
  c.alter measurement fun s => { s with fields := s.fields.insert field type }

def isTag (c : Catalog) (measurement name : Text) : Bool :=
  match c.measurements.get? measurement with
  | none => false
  | some s => s.tags.contains name

def tagKeys (c : Catalog) (measurement : Text) : List Text :=
  match c.measurements.get? measurement with
  | none => []
  | some s => s.tags.keys

def fieldType? (c : Catalog) (measurement field : Text) : Option CellType :=
  (c.measurements.get? measurement).bind fun s => s.fields.get? field

/-! ## From an engine's lists -/

def listedTag? : Row → Option Text
  | .string tag :: _ => some tag
  | _ => none

def listedField? : Row → Option (Text × CellType)
  | .string field :: .string name :: _ => (CellType.ofEngineName? name).map (field, ·)
  | _ => none

def ofAnswers (tagKeys fieldKeys : Answer) : Catalog :=
  let tagged := tagKeys.tables.foldl (fun c t => c.withTags t.name (t.rows.filterMap listedTag?))
    empty
  fieldKeys.tables.foldl
    (fun c t => (t.rows.filterMap listedField?).foldl (fun c f => c.withField t.name f.1 f.2) c)
    tagged

end Catalog
end SeriesCache
