import SeriesCache.Series.Answer
import SeriesCache.Time.Precision
/-!
# Joining answers

Answers to one query over neighbouring windows are joined table by table: the rows of tables
with the same tags follow each other, and a table that only one answer has is kept.  Two
answers are joined only when the gap between their windows is within a tolerance.
-/
namespace SeriesCache

inductive MergeError where
  | measurements (earlier later : Text)
  | columns (earlier later : List Text)
  deriving DecidableEq

def MergeError.message : MergeError → Text
  | measurements e l => "cannot merge results of measurement ".toList ++ Text.shown e
      ++ " with results of ".toList ++ Text.shown l
  | columns e l => "cannot merge results with columns ".toList ++ Text.shownAll e
      ++ " and ".toList ++ Text.shownAll l

def Table.append (t u : Table) : Table := { t with rows := t.rows ++ u.rows }

namespace Answer

/-- The tables by their tags, a later table in place of an earlier one with the same tags. -/
def byTags (tables : List Table) : Dict Table :=
  Dict.ofList (tables.map fun t => (t.tagText, t))

/-- A table's rows added to the table with the same tags, or the table where there is none. -/
def addTable (aligned : Dict Table) (t : Table) : Dict Table :=
  aligned.alter t.tagText fun
    | some u => u.append t
    | none => t

/-- All tables of two answers.  Two single tables of which one has no tags are one table. -/
def joinTables (earlier later : List Table) : List Table :=
  match earlier, later with
  | [e], [l] =>
    if e.tags.isEmpty || l.tags.isEmpty then [e.append l]
    else (addTable (byTags [e]) l).values
  | _, _ => (later.foldl addTable (byTags earlier)).values

/-- An answer over an earlier window joined with one over a later window. -/
def join (earlier later : Answer) : Except MergeError Answer :=
  match earlier.tables, later.tables with
  | e :: _, l :: _ =>
    if e.name ≠ l.name then .error (.measurements e.name l.name)
    else if e.columns ≠ l.columns then .error (.columns e.columns l.columns)
    else .ok ⟨joinTables earlier.tables later.tables, earlier.error <|> later.error⟩
  | _, _ => .ok ⟨joinTables earlier.tables later.tables, earlier.error <|> later.error⟩

end Answer

/-! ## Fragments -/

structure Fragment where
  first : Int64
  last : Int64
  answer : Answer
  deriving DecidableEq

namespace Fragment

/-- An answer over the window of its rows, if it has any with an instant. -/
def ofRows? (a : Answer) : Option Fragment := a.range?.map fun r => ⟨r.1, r.2, a⟩

def later (a b : Int64) : Int64 := if a < b then b else a

/-- Two fragments as one, when one follows the other within the tolerance and the answers can be
joined. -/
def join? (tolerance : Tolerance) (f g : Fragment) : Option Fragment :=
  let inOrder (e l : Fragment) : Option Fragment :=
    match e.answer.join l.answer with
    | .ok a => some ⟨e.first, later e.last l.last, a⟩
    | .error _ => none
  if tolerance.admits f.last g.first then inOrder f g
  else if tolerance.admits g.last f.first then inOrder g f
  else none

/-- The order of fragments: by the start of their windows, then by the end. -/
def isBefore (f g : Fragment) : Bool := f.first < g.first || (f.first == g.first && f.last ≤ g.last)

/-- A fragment joined with as many of the next ones as it can be; the answers from there on. -/
def joinFrom (tolerance : Tolerance) (f : Fragment) : List Fragment → List Answer
  | [] => [f.answer]
  | g :: gs => match join? tolerance f g with
    | some h => joinFrom tolerance h gs
    | none => f.answer :: joinFrom tolerance g gs

/-- The answers of fragments in the order of their windows, neighbours joined where they can be
and empty ones left out. -/
def joinAll (tolerance : Tolerance) (fragments : List Fragment) : List Answer :=
  match (fragments.filter fun f => !f.answer.isEmpty).mergeSort isBefore with
  | [] => []
  | f :: fs => joinFrom tolerance f fs

end Fragment

/-- Answers joined over the windows of their rows. -/
def Answer.joinAll (tolerance : Tolerance) (answers : List Answer) : List Answer :=
  Fragment.joinAll tolerance (answers.filterMap Fragment.ofRows?)

end SeriesCache
