import SeriesCache.Proofs.Json.Cell
import SeriesCache.Proofs.Text.Sorting
/-!
# Reading written answers

A field that is left out when there is nothing in it is read as nothing (`JsonReader.given`), so a table reads back from
its members, whichever of them are there (`JsonReader.reads_tableText`).  Tags stand in ascending order and are put in
one after the other.  The tables of an answer are put in order when they are read (`Json.readAnswer_answerText`), and so an
answer whose tables are in order reads back as it was written (`Json.answers_read_back`).
-/
namespace SeriesCache

namespace JsonReader

open Json

variable {α σ : Type} {p : JsonReader α} {t rest : Text} {a : α}

/-! ## Fields -/

/-- What is read of a field that may be left out. -/
def given (present : Bool) (a : α) : Option α := if present then some a else none

theorem getD_given {present : Bool} {default : α} (h : present = false → default = a) :
    (given present a).getD default = a := by
  cases present with
  | true => rfl
  | false => exact h rfl

theorem getD_given_list (as : List α) : (given (!as.isEmpty) as).getD [] = as :=
  getD_given fun h => (List.isEmpty_iff.1 ((Bool.not_eq_false' _).mp h)).symm

variable {member : σ → Text → JsonReader σ} {state : σ} {f : α → σ} {key : String}

/-- A field that was not known is read behind its key. -/
theorem steps_field (hmember : member state key.toList = do return f (← once none p)) (h : Reads p t a) :
    Steps member state (Json.member true key t) (f a) := by
  refine .cons (fun rest hrest => ?_) (.nil _)
  rw [hmember]
  exact bind_ok ((bind_ok (colon_cons (t ++ rest)) _).trans (h.ok rest hrest)) _

/-- A field that is left out leaves what is known as it is. -/
theorem steps_given {f : Option α → σ} (hmember : member (f none) key.toList = do return f (some (← once none p)))
    (h : Reads p t a) (present : Bool) :
    Steps member (f none) (Json.member present key t) (f (given present a)) := by
  cases present with
  | true => exact steps_field (f := fun v => f (some v)) hmember h
  | false => exact .nil _

/-! ## Tables -/

theorem steps_entries {member : Dict Text → Text → JsonReader (Dict Text)}
    (hmember : ∀ d k, member d k = do colon; return d.insert k (← string)) (es : List (Text × Text)) (d : Dict Text) :
    Steps member d (es.map fun (k, v) => (k, stringText v)) (es.foldl (fun d e => d.insert e.1 e.2) d) := by
  induction es generalizing d with
  | nil => exact .nil d
  | cons e es ih =>
    refine .cons (fun rest hrest => ?_) (ih (d.insert e.1 e.2))
    rw [hmember]
    exact (bind_ok (colon_cons _) _).trans (bind_ok ((reads_stringText e.2).ok rest hrest) _)

/-- **Tags read back**: put in one after the other, their entries make the same dictionary. -/
theorem reads_tags (d : Dict Text) : Reads tags (objectText (d.entries.map fun (k, v) => (k, stringText v))) d := by
  refine ⟨rfl, fun rest _ => ?_⟩
  have hsteps := steps_entries (fun _ _ => rfl) d.entries .empty
  have hfold : d.entries.foldl (fun d e => d.insert e.1 e.2) .empty = d := Dict.ofList_eq_of_mem_iff fun _ => Iff.rfl
  rw [hfold] at hsteps
  have hmembers := members_objectText hsteps rest
  rw [objectText_eq, List.cons_append] at hmembers ⊢
  rw [tags, bind_peek rfl, if_pos rfl]
  exact hmembers

/-- The fields of a table are read one behind the other. -/
theorem steps_table {member : TableFields → Text → JsonReader TableFields} {rows : JsonReader (List Row)} {t : Table}
    (hname : ∀ t, member t "name".toList = do return { t with name := some (← once t.name string) })
    (htags : ∀ t, member t "tags".toList = do return { t with tags := some (← once t.tags tags) })
    (hcolumns : ∀ t, member t "columns".toList = do return { t with columns := some (← once t.columns (array string)) })
    (hvalues : ∀ t, member t "values".toList = do return { t with rows := some (← once t.rows rows) })
    (hrows : Reads rows (arrayText (arrayText cellText) t.rows) t.rows) :
    Steps member ⟨none, none, none, none⟩ (Json.member true "name" (stringText t.name)
      ++ Json.member (!t.tags.isEmpty) "tags" (objectText (t.tags.entries.map fun (k, v) => (k, stringText v)))
      ++ Json.member true "columns" (arrayText stringText t.columns)
      ++ Json.member (!t.rows.isEmpty) "values" (arrayText (arrayText cellText) t.rows))
      ⟨some t.name, given (!t.tags.isEmpty) t.tags, some t.columns, given (!t.rows.isEmpty) t.rows⟩ := by
  have hcolumnsText : Reads (array string) (arrayText stringText t.columns) t.columns :=
    reads_arrayText fun column _ => reads_stringText column
  have hfirst := steps_field (hname ⟨none, none, none, none⟩) (reads_stringText t.name)
  have hsecond := steps_given (f := fun v => (⟨some t.name, v, none, none⟩ : TableFields)) (htags _)
    (reads_tags t.tags) (!t.tags.isEmpty)
  have hthird := steps_field (hcolumns ⟨some t.name, given (!t.tags.isEmpty) t.tags, none, none⟩) hcolumnsText
  have hfourth := steps_given
    (f := fun v => (⟨some t.name, given (!t.tags.isEmpty) t.tags, some t.columns, v⟩ : TableFields)) (hvalues _) hrows
    (!t.rows.isEmpty)
  exact ((hfirst.append hsecond).append hthird).append hfourth

/-- **A table reads back**, whichever of its fields are left out. -/
theorem reads_tableText {t : Table} (hcells : ∀ row ∈ t.rows, ∀ cell ∈ row, cell.type? ≠ some .float64) (depth : Nat) :
    Reads (table depth) (tableText t) t := by
  have hrows : Reads (array (array (cell (greatestDepth - depth - 3)))) (arrayText (arrayText cellText) t.rows) t.rows :=
    reads_arrayText fun row hrow => reads_arrayText fun c hc => reads_cellText (hcells row hrow c hc) _
  have htags : (given (!t.tags.isEmpty) t.tags).getD .empty = t.tags :=
    getD_given fun h => Dict.eq_of_entries (List.isEmpty_iff.1 ((Bool.not_eq_false' _).mp h)).symm
  refine ⟨rfl, fun rest hrest => ?_⟩
  unfold table tableText
  rw [bind_ok ((reads_objectText _ (steps_table ?_ ?_ ?_ ?_ hrows)).ok rest hrest)]
  · simp only [htags, getD_given_list]
    rfl
  all_goals exact fun _ => rfl

/-! ## Results -/

theorem reads_statementId : Reads statementId ['0'] 0 := by
  refine ⟨rfl, fun rest hrest => ?_⟩
  have hnumber : numberFrom '0' ('0' :: rest) = .ok (.natural 0, rest) :=
    number_text (n := 0) (by decide) hrest false
  rw [List.singleton_append, statementId, bind_peek rfl, if_pos (by decide), bind_ok hnumber]
  rfl

theorem reads_optionalString (s : Text) : Reads optionalString (stringText s) (some s) := by
  refine ⟨rfl, fun rest hrest => ?_⟩
  have hstring := (reads_stringText s).ok rest hrest
  rw [stringText_append] at hstring ⊢
  rw [optionalString, bind_peek rfl, if_neg (by decide)]
  exact bind_ok hstring _

/-- A result is written as its number, which is always zero, its series and its error. -/
def resultText (a : Answer) : Text :=
  objectText (Json.member true "statement_id" ['0']
    ++ Json.member (!a.tables.isEmpty) "series" (arrayText tableText a.tables)
    ++ Json.member a.error.isSome "error" (stringText (a.error.getD [])))

theorem answerText_eq (a : Answer) :
    answerText a = objectText (Json.member true "results" (arrayText id [resultText a])) := rfl

/-- The fields of a result are read one behind the other. -/
theorem steps_result {member : ResultFields → Text → JsonReader ResultFields} {tables : JsonReader (List Table)}
    {a : Answer}
    (hstatement : ∀ r, member r "statement_id".toList = do
      return { r with statement := some (← once r.statement statementId) })
    (hseries : ∀ r, member r "series".toList = do return { r with series := some (← once r.series tables) })
    (herror : ∀ r, member r "error".toList = do return { r with error := some (← once r.error optionalString) })
    (htables : Reads tables (arrayText tableText a.tables) a.tables) :
    Steps member ⟨none, none, none⟩ (Json.member true "statement_id" ['0']
      ++ Json.member (!a.tables.isEmpty) "series" (arrayText tableText a.tables)
      ++ Json.member a.error.isSome "error" (stringText (a.error.getD [])))
      ⟨some 0, given (!a.tables.isEmpty) a.tables, given a.error.isSome (some (a.error.getD []))⟩ := by
  have hfirst := steps_field (hstatement ⟨none, none, none⟩) reads_statementId
  have hsecond := steps_given (f := fun v => (⟨some 0, v, none⟩ : ResultFields)) (hseries _) htables (!a.tables.isEmpty)
  have hthird := steps_given (f := fun v => (⟨some 0, given (!a.tables.isEmpty) a.tables, v⟩ : ResultFields)) (herror _)
    (reads_optionalString (a.error.getD [])) a.error.isSome
  exact (hfirst.append hsecond).append hthird

theorem reads_resultText {a : Answer} (htables : Reads (array (table 4)) (arrayText tableText a.tables) a.tables) :
    Reads result (resultText a)
      ⟨some 0, given (!a.tables.isEmpty) a.tables, given a.error.isSome (some (a.error.getD []))⟩ := by
  unfold result
  refine reads_objectText _ (steps_result ?_ ?_ ?_ htables)
  all_goals exact fun _ => rfl

theorem reads_answerText {a : Answer} {r : ResultFields} (h : Reads result (resultText a) r) :
    Reads results (answerText a) [r] := by
  have hitems : Reads (array result) (arrayText (fun _ : ResultFields => resultText a) [r]) [r] :=
    reads_arrayText fun r' hr => List.mem_singleton.1 hr ▸ h
  have hresults : Reads (array result) (arrayText id [resultText a]) [r] := hitems
  refine ⟨rfl, fun rest hrest => ?_⟩
  unfold results
  rw [answerText_eq, bind_ok ((reads_objectText _ (steps_field (f := some) ?_ hresults)).ok rest hrest)]
  · rfl
  · exact rfl

end JsonReader

namespace Json

open JsonReader

theorem run_ok {α : Type} {p : JsonReader α} {t : Text} {a : α} (h : Reads p t a) : run p t = .ok a := by
  have hread := h.ok [] rfl
  rw [List.append_nil] at hread
  rw [run, hread]
  rfl

/-- **A written answer is read as its tables in order, and its error.** -/
theorem readAnswer_answerText {a : Answer}
    (hcells : ∀ t ∈ a.tables, ∀ row ∈ t.rows, ∀ cell ∈ row, cell.type? ≠ some .float64) :
    readAnswer (answerText a) = .ok { Answer.ofTables a.tables with error := a.error } := by
  have htables : Reads (array (table 4)) (arrayText tableText a.tables) a.tables :=
    reads_arrayText fun t ht => reads_tableText (hcells t ht) 4
  have herror : (given a.error.isSome (some (a.error.getD []))).getD none = a.error := by cases a.error <;> rfl
  rw [readAnswer, run_ok (reads_answerText (reads_resultText htables))]
  show Except.ok _ = _
  rw [getD_given_list, herror]

/-- **An answer reads back from its JSON text** when its tables are in order and none of its cells is a float. -/
theorem answers_read_back {a : Answer} (horder : a.tables.Pairwise fun t u => ¬ u.tagText < t.tagText)
    (hcells : ∀ t ∈ a.tables, ∀ row ∈ t.rows, ∀ cell ∈ row, cell.type? ≠ some .float64) :
    readAnswer (answerText a) = .ok a := by
  have hsorted : Text.sortOn Table.tagText a.tables = a.tables := Text.sortOn_eq_self horder
  rw [readAnswer_answerText hcells, Answer.ofTables, hsorted]

/-- An answer with a table of nothing but its name, with characters to escape and one outside the basic plane, and with
an error. -/
def unevenAnswer : Answer where
  tables := [⟨"m".toList, .empty, [], []⟩,
    ⟨"m".toList, .ofList [("host".toList, ['"', '\\', '\n'])], ["time".toList, "v".toList],
      [[.int64 Int64.minValue, .null], [.bool true, .string ['\x01', '/', Char.ofNat 0x1F600]], []]⟩]
  error := some ['\t', ']']

theorem answers_read_back_uneven : readAnswer (answerText unevenAnswer) = .ok unevenAnswer :=
  answers_read_back (by decide) (by decide)

end Json
end SeriesCache
