import SeriesCache.Key.Reader
import SeriesCache.Proofs.Key.Escape
import SeriesCache.Proofs.Outcome
/-!
# Keys read back

The text of a key reads back as the key, whatever its names, values and literals are
(`read_text`): every delimiter that stands in it unescaped is one that was put there.  The word for
what is absent is told from a segment, a column or a constraint, which have a delimiter in them, but
not from a function or an interval of that name: such a component reads back as absent
(`Key.readable`).
-/
namespace SeriesCache

open Escaped (Without cut? isDelimiter isOperatorChar escape)

namespace Escaped

/-! ## Delimiters but for some -/

/-- The delimiters that are not among the characters given. -/
def isDelimiterBut (allowed : List Char) (c : Char) : Bool := isDelimiter c && !allowed.contains c

theorem Without.allow {allowed more : List Char} (h : allowed ⊆ more) {s : Text}
    (hs : Without (isDelimiterBut allowed) s) : Without (isDelimiterBut more) s := by
  refine hs.mono fun c hc => ?_
  rw [isDelimiterBut, Bool.and_eq_true, Bool.not_eq_true', Bool.eq_false_iff, Ne,
    List.contains_iff_mem] at hc ⊢
  exact ⟨hc.1, fun hm => hc.2 (h hm)⟩

theorem Without.delimiter {allowed : List Char} {s : Text} (hs : Without (isDelimiterBut allowed) s)
    {c : Char} (hc : isDelimiterBut allowed c = true) : Without (· == c) s :=
  hs.mono fun d hd => by rw [eq_of_beq hd]; exact hc

theorem without_escape_delimiters (place : Place) (allowed : List Char) (s : Text) :
    Without (isDelimiterBut allowed) (escape place s) :=
  without_escape (fun c hc => isSpecial_of_isDelimiter (by
    rw [isDelimiterBut, Bool.and_eq_true] at hc; exact hc.1)) s

end Escaped

open Escaped (isDelimiterBut without_escape_delimiters)

/-! ## Operators and types -/

theorem Operator.text_eq_cons (op : Operator) : ∃ c t, op.text = c :: t ∧ isOperatorChar c = true ∧
    c ≠ '\\' := by
  cases op <;> exact ⟨_, _, rfl, rfl, by decide⟩

theorem Operator.without_text (op : Operator) : Without (isDelimiterBut []) op.text := by
  cases op <;> exact .of_all rfl

/-- An operator is read where it was written, unless an operator's character follows. -/
theorem Operator.prefix?_text_append (op : Operator) {s : Text}
    (hs : ∀ c ∈ s.head?, isOperatorChar c = false) : Operator.prefix? (op.text ++ s) = some (op, s) := by
  cases s with
  | nil => cases op <;> rfl
  | cons c s =>
    have hc := hs c rfl
    have h1 : c ≠ '=' := fun h => by rw [h] at hc; cases hc
    have h2 : c ≠ '~' := fun h => by rw [h] at hc; cases hc
    cases op <;>
      simp [Operator.prefix?, Operator.all, Operator.text, Text.dropPrefix?, h1.symm, h2.symm]

theorem cut?_operator (op : Operator) {s : Text} (hs : Without isOperatorChar s) (t : Text) :
    cut? isOperatorChar (s ++ op.text ++ t) = some (s, op.text ++ t) := by
  obtain ⟨c, u, hu, hc, hb⟩ := op.text_eq_cons
  rw [hu, List.append_assoc, List.cons_append]
  exact Escaped.cut?_append hc hb hs (u ++ t)

/-- A text in which an operator stands is not the word for nothing. -/
theorem ne_emptyWord_of_operator (op : Operator) {s : Text} (hs : Without isOperatorChar s) (t : Text) :
    s ++ op.text ++ t ≠ emptyWord := by
  intro h
  have hcut := cut?_operator op hs t
  rw [h] at hcut
  cases hcut

theorem without_escape_operators (s : Text) : Without isOperatorChar (escape .name s) :=
  Escaped.without_escape (fun _ => Escaped.isSpecial_of_isOperatorChar) s

/-- An escaped name starts with no operator's character. -/
theorem head?_escape_append {s t : Text} (ht : ∀ c ∈ t.head?, isOperatorChar c = false) :
    ∀ c ∈ (escape .name s ++ t).head?, isOperatorChar c = false := by
  cases s with
  | nil => exact ht
  | cons c s =>
    rw [Escaped.escape_cons, Escaped.escapeChar]
    intro d hd
    split at hd
    · cases hd; rfl
    · rename_i hc
      cases hd
      rw [Bool.eq_false_iff]
      exact fun h => hc (Escaped.isSpecial_of_isOperatorChar h)

theorem CellType.ofText?_text (t : CellType) : CellType.ofText? t.text = some t := by
  cases t <;> decide

theorem CellType.without_text (t : CellType) : Without (isDelimiterBut []) t.text := by
  cases t <;> exact .of_all (by decide)

/-! ## Segments -/

theorem Assignment.without_text (measurement : Text) (a : Assignment) :
    Without (isDelimiterBut []) (a.text measurement) := by
  refine ((Without.append (without_escape_delimiters _ _ _) ?_).append a.operator.without_text).append
    (without_escape_delimiters _ _ _)
  exact .plain (by decide) rfl (without_escape_delimiters _ _ _)

theorem Segment.readEntry_assignment (measurement : Text) (a : Assignment) :
    Segment.readEntry (a.text measurement) = .ok (measurement, some a) := by
  have hm : Without (· == '.') (escape .measurement measurement) :=
    Escaped.without_escape (fun c hc => by rw [eq_of_beq hc]; rfl) measurement
  have htag := without_escape_operators a.tag
  rw [Assignment.text, List.append_assoc, List.append_assoc, List.cons_append, ← List.append_assoc,
    Segment.readEntry, Escaped.cut?_append rfl (by decide) hm]
  simp only
  rw [if_neg (ne_emptyWord_of_operator _ htag _), cut?_operator _ htag]
  simp only
  have hvalue := head?_escape_append (s := a.value) (t := []) fun c hc => by cases hc
  rw [List.append_nil] at hvalue
  rw [Operator.prefix?_text_append _ hvalue]
  simp only [Escaped.unescape_escape]

theorem Segment.readEntry_empty (measurement : Text) :
    Segment.readEntry (escape .measurement measurement ++ '.' :: emptyWord) = .ok (measurement, none) := by
  have hm : Without (· == '.') (escape .measurement measurement) :=
    Escaped.without_escape (fun c hc => by rw [eq_of_beq hc]; rfl) measurement
  rw [Segment.readEntry, Escaped.cut?_append rfl (by decide) hm]
  simp only [if_true, Escaped.unescape_escape]

/-- What stands between the parentheses of a segment. -/
def Segment.entries (s : Segment) : List Text :=
  if s.assignments.isEmpty then [escape .measurement s.measurement ++ '.' :: emptyWord]
  else s.assignments.map (Assignment.text s.measurement)

theorem Segment.text_eq (s : Segment) : s.text = '(' :: Text.join [','] s.entries ++ [')'] := by
  rw [Segment.text, Segment.entries]
  split <;> rfl

theorem Segment.entries_ne_nil (s : Segment) : s.entries ≠ [] := by
  rw [Segment.entries]
  split
  · exact List.cons_ne_nil _ _
  · rename_i h
    simpa [List.isEmpty_iff] using h

theorem Segment.without_entries (s : Segment) : ∀ e ∈ s.entries, Without (isDelimiterBut []) e := by
  intro e he
  rw [Segment.entries] at he
  split at he
  · rw [List.mem_singleton.1 he]
    exact (without_escape_delimiters _ _ _).append (.of_all (by decide))
  · obtain ⟨a, -, rfl⟩ := List.mem_map.1 he
    exact a.without_text s.measurement

theorem Segment.without_join (s : Segment) :
    Without (isDelimiterBut [',']) (Text.join [','] s.entries) :=
  Without.join (.of_all rfl) fun e he => (s.without_entries e he).allow (List.nil_subset _)

/-- **A segment reads back.** -/
theorem Segment.read_join (s : Segment) : Segment.read (Text.join [','] s.entries) = .ok s := by
  have hsplit : Escaped.split ',' (Text.join [','] s.entries) = s.entries :=
    Escaped.split_join (by decide) s.entries_ne_nil fun e he => (s.without_entries e he).delimiter rfl
  obtain ⟨measurement, assignments⟩ := s
  rw [Segment.read, hsplit, Segment.entries]
  cases assignments with
  | nil =>
    have hread := Outcome.mapM_cons_eq_ok_iff.2
      ⟨_, [], Segment.readEntry_empty measurement, List.mapM_nil, rfl⟩
    exact Outcome.bind_eq_ok_iff.2 ⟨_, hread, rfl⟩
  | cons a as =>
    have hread : ((a :: as).map (Assignment.text measurement)).mapM Segment.readEntry =
        .ok ((a :: as).map fun b => (measurement, some b)) :=
      Outcome.mapM_map_eq_ok fun b _ => Segment.readEntry_assignment measurement b
    refine Outcome.bind_eq_ok_iff.2 ⟨_, hread, ?_⟩
    have hlist : ((a :: as).map fun b => (measurement, some b)).filterMap Prod.snd = a :: as := by
      rw [List.filterMap_map]
      exact List.filterMap_some
    rw [hlist]
    rfl

/-! ## Columns and constraints -/

def typedText (name : Text) (type : CellType) : Text := escape .name name ++ '[' :: type.text ++ [']']

theorem without_typedText (name : Text) (type : CellType) :
    Without (isDelimiterBut ['[', ']']) (typedText name type) := by
  refine ((without_escape_delimiters _ _ _).append ?_).append (.of_all rfl)
  exact .plain (by decide) rfl (type.without_text.allow (List.nil_subset _))

theorem readTyped_typedText (name : Text) (type : CellType) :
    readTyped (typedText name type) = .ok (name, type) := by
  have htype : Without (· == '[') (type.text ++ [']']) :=
    (type.without_text.delimiter rfl).append (.of_all rfl)
  rw [typedText, List.append_assoc, List.cons_append, readTyped,
    Escaped.cutLast?_append rfl (by decide) (without_escape_delimiters .name [] name) htype]
  simp only
  rw [if_pos List.getLast?_concat, List.dropLast_concat, CellType.ofText?_text]
  simp only [Escaped.unescape_escape]

theorem Column.text_eq (c : Column) : c.text = typedText c.name c.type := rfl

/-- **A column reads back.** -/
theorem Column.read_text (c : Column) : Column.read c.text = .ok c := by
  rw [Column.text_eq, Column.read, readTyped_typedText]
  rfl

/-- What stands between the parentheses of a constraint. -/
def Constraint.inner (c : Constraint) : Text :=
  escape .name c.name ++ c.operator.text ++ typedText c.literal c.type

theorem Constraint.text_eq (c : Constraint) : c.text = '(' :: c.inner ++ [')'] := by
  simp only [Constraint.text, Constraint.inner, typedText, List.append_assoc, List.cons_append,
    List.nil_append]

theorem Constraint.without_inner (c : Constraint) : Without (isDelimiterBut ['[', ']']) c.inner :=
  ((without_escape_delimiters _ _ _).append (c.operator.without_text.allow (List.nil_subset _))).append
    (without_typedText c.literal c.type)

/-- **A constraint reads back.** -/
theorem Constraint.read_inner (c : Constraint) : Constraint.read c.inner = .ok c := by
  have hhead : ∀ d ∈ (typedText c.literal c.type).head?, isOperatorChar d = false := by
    rw [typedText, List.append_assoc]
    refine head?_escape_append fun d hd => ?_
    cases hd
    rfl
  rw [Constraint.inner, Constraint.read, cut?_operator _ (without_escape_operators c.name)]
  simp only
  rw [Operator.prefix?_text_append _ hhead]
  simp only
  rw [readTyped_typedText]
  simp only [Escaped.unescape_escape]
  rfl

theorem Constraint.text_inj {c d : Constraint} (h : c.text = d.text) : c = d := by
  rw [Constraint.text_eq, Constraint.text_eq] at h
  have hinner : c.inner = d.inner := List.append_cancel_right (List.cons.inj h).2
  have hread := Constraint.read_inner c
  rw [hinner, Constraint.read_inner] at hread
  cases hread
  rfl

/-! ## Sections -/

namespace Key

/-- The delimiters that stand unescaped inside a section. -/
def outer : List Char := ['{', '}', '(', ')', ',', '[', ']']

theorem without_section {items : List Text} {sep : Text}
    (hsep : Without (isDelimiterBut outer) sep)
    (hitems : ∀ s ∈ items, Without (isDelimiterBut outer) s) :
    Without (isDelimiterBut outer) (sectionText items sep) := by
  refine Without.append (.plain (by decide) rfl ?_) (.of_all rfl)
  split
  · exact .of_all (by decide)
  · exact .join hsep hitems

/-- **A section reads back** when the text of its items is not the word for nothing, comes apart into
them, and each of them reads back. -/
theorem readSection_sectionText {α : Type} (flaw : KeyFlaw)
    {parts : Text → Except KeyFlaw (List Text)} {read : Text → Except KeyFlaw α} {sep : Text}
    {write inner : α → Text} (items : List α)
    (hne : items ≠ [] → Text.join sep (items.map write) ≠ emptyWord)
    (hparts : items ≠ [] → parts (Text.join sep (items.map write)) = .ok (items.map inner))
    (hread : ∀ a ∈ items, read (inner a) = .ok a) :
    readSection flaw parts read (sectionText (items.map write) sep) = .ok items := by
  rw [readSection, sectionText, Escaped.braced?_braces]
  cases items with
  | nil => rfl
  | cons a items =>
    have hitems := Outcome.mapM_map_eq_ok hread
    rw [List.map_id'] at hitems
    simp only [List.map_cons, List.isEmpty_cons, Bool.false_eq_true, if_false]
    rw [← List.map_cons, if_neg (hne (List.cons_ne_nil a items))]
    exact Outcome.bind_eq_ok_iff.2 ⟨_, hparts (List.cons_ne_nil a items), hitems⟩

/-- A sequence of groups is not the word for nothing. -/
theorem join_groups_ne_emptyWord {β : Type} (inner : β → Text) {items : List β} (h : items ≠ []) :
    Text.join [] (items.map fun b => '(' :: inner b ++ [')']) ≠ emptyWord := by
  cases items with
  | nil => exact absurd rfl h
  | cons b items =>
    intro he
    rw [Text.join_nil, List.map_cons, List.flatten_cons] at he
    cases he

theorem groups_join {β : Type} (flaw : KeyFlaw) {inner : β → Text} {items : List β}
    (h : ∀ b, Without (· == ')') (inner b)) :
    groups flaw (Text.join [] (items.map fun b => '(' :: inner b ++ [')'])) = .ok (items.map inner) := by
  have hflat : Text.join [] (items.map fun b => '(' :: inner b ++ [')']) =
      (items.map inner).flatMap fun s => '(' :: s ++ [')'] := by
    rw [Text.join_nil, List.flatMap_map, List.flatMap_def]
  rw [hflat, groups, Escaped.groups?_flatMap]
  intro s hs
  obtain ⟨b, -, rfl⟩ := List.mem_map.1 hs
  exact h b

theorem map_text_segments (segments : List Segment) : segments.map Segment.text =
    segments.map fun s => '(' :: Text.join [','] s.entries ++ [')'] :=
  List.map_congr_left fun s _ => s.text_eq

theorem map_text_constraints (constraints : List Constraint) : constraints.map Constraint.text =
    constraints.map fun c => '(' :: c.inner ++ [')'] :=
  List.map_congr_left fun c _ => c.text_eq

theorem readSegments_segmentsText (k : Key) : readSegments k.segmentsText = .ok k.segments := by
  rw [segmentsText, map_text_segments, readSegments]
  exact readSection_sectionText .segmentsNotBraced k.segments (join_groups_ne_emptyWord _)
    (fun _ => groups_join .segmentsNotGroups fun s => s.without_join.delimiter rfl)
    (fun s _ => s.read_join)

theorem readConstraints_text (constraints : List Constraint) :
    readConstraints (sectionText (constraints.map Constraint.text) []) = .ok constraints := by
  rw [map_text_constraints, readConstraints]
  exact readSection_sectionText .constraintsNotBraced constraints (join_groups_ne_emptyWord _)
    (fun _ => groups_join .constraintsNotGroups fun c => c.without_inner.delimiter rfl)
    (fun c _ => c.read_inner)

theorem readColumns_text (columns : List Column) :
    readColumns (sectionText (columns.map Column.text) [',']) = .ok columns := by
  rw [readColumns]
  refine readSection_sectionText .columnsNotBraced columns (fun h he => ?_) (fun h => ?_)
    (fun c _ => c.read_text)
  · -- a column has a bracket in it
    obtain ⟨c, hc⟩ := List.exists_mem_of_ne_nil columns h
    have hmem : '[' ∈ c.text := by rw [Column.text_eq, typedText]; simp
    have hjoin : '[' ∈ Text.join [','] (columns.map Column.text) := Text.mem_join hmem (List.mem_map_of_mem hc)
    rw [he] at hjoin
    revert hjoin
    decide
  · rw [Escaped.split_join (by decide) (by simpa using h)]
    intro s hs
    obtain ⟨c, -, rfl⟩ := List.mem_map.1 hs
    exact (without_typedText c.name c.type).delimiter rfl

/-! ## The function and the interval -/

/-- What is read of a component: one that is spelled like the word for nothing is taken for nothing. -/
def told (component : Option Text) : Option Text :=
  if component = some emptyWord then none else component

theorem told_eq_self_iff {component : Option Text} :
    told component = component ↔ component ≠ some emptyWord := by
  rw [told]
  split
  · rename_i h; rw [h]; simp
  · rename_i h; simp [h]

theorem without_componentText (component : Option Text) :
    Without (isDelimiterBut []) (componentText component) := by
  cases component with
  | none => exact .of_all (by decide)
  | some s => exact without_escape_delimiters _ _ _

theorem readComponent_componentText (component : Option Text) :
    readComponent (componentText component) = told component := by
  cases component with
  | none => rfl
  | some s =>
    have hword : Escaped.escape .name s = emptyWord ↔ s = emptyWord := by
      constructor
      · intro h
        rw [← Escaped.unescape_escape .name s, h]
        rfl
      · rintro rfl; rfl
    simp only [readComponent, componentText, told, hword, Escaped.unescape_escape, Option.some.injEq]

theorem readAggregate_text (aggregation interval : Option Text) :
    readAggregate ('{' :: componentText aggregation ++ ',' :: componentText interval ++ ['}']) =
      .ok (told aggregation, told interval) := by
  have hsplit : Escaped.split ',' (componentText aggregation ++ ',' :: componentText interval) =
      [componentText aggregation, componentText interval] := by
    rw [Escaped.split_append (by decide) ((without_componentText aggregation).delimiter rfl),
      Escaped.split_of_without ((without_componentText interval).delimiter rfl)]
  rw [readAggregate, List.cons_append, Escaped.braced?_braces]
  simp only
  rw [hsplit]
  simp only [readComponent_componentText]

/-! ## Keys -/

theorem without_segmentsText (k : Key) : Without (isDelimiterBut outer) k.segmentsText := by
  rw [segmentsText]
  refine without_section .nil fun s hs => ?_
  obtain ⟨t, -, rfl⟩ := List.mem_map.1 hs
  rw [t.text_eq]
  exact .plain (by decide) rfl ((t.without_join.allow (by decide)).append (.of_all rfl))

theorem without_columnsText (columns : List Column) :
    Without (isDelimiterBut outer) (sectionText (columns.map Column.text) [',']) := by
  refine without_section (.of_all rfl) fun s hs => ?_
  obtain ⟨c, -, rfl⟩ := List.mem_map.1 hs
  exact (without_typedText c.name c.type).allow (by decide)

theorem without_constraintsText (constraints : List Constraint) :
    Without (isDelimiterBut outer) (sectionText (constraints.map Constraint.text) []) := by
  refine without_section .nil fun s hs => ?_
  obtain ⟨c, -, rfl⟩ := List.mem_map.1 hs
  rw [c.text_eq]
  exact .plain (by decide) rfl ((c.without_inner.allow (by decide)).append (.of_all rfl))

theorem without_aggregateText (aggregation interval : Option Text) : Without (isDelimiterBut outer)
    ('{' :: componentText aggregation ++ ',' :: componentText interval ++ ['}']) := by
  have h (component : Option Text) := (without_componentText component).allow (List.nil_subset outer)
  refine Without.append (.append (.plain (by decide) rfl (h aggregation)) ?_) (.of_all rfl)
  exact .plain (by decide) rfl (h interval)

def sections (k : Key) : List Text :=
  [k.segmentsText, sectionText (k.columns.map Column.text) [','],
   sectionText (k.constraints.map Constraint.text) [],
   '{' :: componentText k.aggregation ++ ',' :: componentText k.interval ++ ['}']]

theorem text_eq_join (k : Key) : k.text = Text.join ['#'] k.sections := by
  simp only [text, sections, Text.join, List.append_assoc, List.cons_append, List.nil_append]

theorem without_sections (k : Key) : ∀ s ∈ k.sections, Without (isDelimiterBut outer) s := by
  intro s hs
  simp only [sections, List.mem_cons, List.not_mem_nil, or_false] at hs
  rcases hs with rfl | rfl | rfl | rfl
  · exact k.without_segmentsText
  · exact without_columnsText k.columns
  · exact without_constraintsText k.constraints
  · exact without_aggregateText k.aggregation k.interval

/-- **No blank stands in the text of a key unescaped**, so that a blank can stand behind it. -/
theorem without_text (k : Key) : Without (· == ' ') k.text := by
  rw [text_eq_join]
  exact Without.join (.of_all rfl) fun s hs => (k.without_sections s hs).delimiter rfl

/-- **The text of a key reads back**, but for components spelled like the word for nothing. -/
theorem read_text (k : Key) :
    read k.text = .ok { k with aggregation := told k.aggregation, interval := told k.interval } := by
  have hsplit : Escaped.split '#' k.text = k.sections := by
    rw [text_eq_join]
    exact Escaped.split_join (by decide) (List.cons_ne_nil _ _) fun s hs =>
      (k.without_sections s hs).delimiter rfl
  rw [read, readSections, hsplit, sections]
  simp only
  rw [readAggregate_text, readSegments_segmentsText, readColumns_text, readConstraints_text]
  rfl

/-- Neither the function nor the interval is spelled like the word for nothing. -/
def Legible (k : Key) : Prop := k.aggregation ≠ some emptyWord ∧ k.interval ≠ some emptyWord

/-- **Key text round trip.**  The text of every key reads, and as the key itself exactly when the key is
legible.  Two legible keys have the same text only when they are equal. -/
theorem text_reads_back (k : Key) :
    (∃ l, read k.text = .ok l ∧ (l = k ↔ k.Legible)) ∧
    ∀ l : Key, k.Legible → l.Legible → k.text = l.text → k = l := by
  have hself (k : Key) : { k with aggregation := told k.aggregation, interval := told k.interval } = k ↔
      k.Legible := by
    obtain ⟨segments, columns, constraints, aggregation, interval⟩ := k
    simp only [Legible, Key.mk.injEq, true_and, told_eq_self_iff]
  refine ⟨⟨_, k.read_text, hself k⟩, fun l hk hl h => ?_⟩
  have hread := k.read_text
  rw [(hself k).2 hk, h, l.read_text, (hself l).2 hl] at hread
  cases hread
  rfl

/-- A measurement with a point, a tag that is an operator, a value that is a backslash and a column that
is the word for nothing. -/
theorem text_reads_back_tangled :
    let k : Key := ⟨[⟨"a.b".toList, [⟨"=~".toList, .eq, "\\".toList⟩]⟩, ⟨[], []⟩],
      [⟨emptyWord, .string⟩], [⟨"x)".toList, .lt, "=#".toList, .bool⟩], none, some []⟩
    k.Legible ∧ read k.text = .ok k := by
  intro k
  have hk : k.Legible := ⟨by decide, by decide⟩
  obtain ⟨l, hread, hl⟩ := (text_reads_back k).1
  rw [hl.2 hk] at hread
  exact ⟨hk, hread⟩

end Key
end SeriesCache
