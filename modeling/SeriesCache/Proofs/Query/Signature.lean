import SeriesCache.Proofs.Query.Findings
import SeriesCache.Proofs.Query.Printed
/-!
# What a signature tells

A signature is a printed statement, so two requests with one signature have one text from their FROM and from
their GROUP BY on.  What stands there is read back name by name, and so requests that can be cached group by the
same tags when they have one signature (`Request.groupTags_eq_of_signature`).
-/
namespace SeriesCache

open Scan

/-! ## Dimensions -/

namespace Dimension

/-- The tags that a dimension groups by, when a wildcard stands for all of them. -/
def tags (all : List Text) : Dimension → List Text
  | tag n => [n]
  | wildcard => all
  | _ => []

theorem groupTagsOf_eq (context : Context) (measurement : Text) (dimensions : List Dimension) :
    Request.groupTagsOf context measurement dimensions =
      Text.distinctOn id (dimensions.flatMap (tags (context.catalog.tagKeys measurement))) := rfl

/-- Whether a text may stand behind a printed dimension. -/
def ends : Text → Bool
  | [] => true
  | c :: _ => c == ',' || c == ' '

theorem startsWith_of_ends {e : Text} (h : ends e = true) : Text.startsWith Text.isWordPart e = false := by
  cases e with
  | nil => rfl
  | cons c e =>
    simp only [ends, Bool.or_eq_true, beq_iff_eq] at h
    rcases h with rfl | rfl <;> rfl

theorem text_time (i : Duration) (o : Option Duration) :
    ∃ body : Text, (time i o).text = "time".toList ++ '(' :: body ++ [')'] ∧ body.all isPlain = true := by
  cases o with
  | none => exact ⟨i.text, rfl, plain_duration i⟩
  | some o =>
    have hoffset : (',' :: ' ' :: o.text).all isPlain = true := plain_append (t := [',', ' ']) (by decide) (plain_duration o)
    refine ⟨i.text ++ ',' :: ' ' :: o.text, ?_, plain_append (plain_duration i) hoffset⟩
    unfold text
    simp only [List.append_assoc, List.cons_append]
    rfl

/-- The name that a printed dimension starts with, and what follows it. -/
theorem read_text {d : Dimension} {e : Text} (hd : ∀ r, d ≠ regex r) (he : ends e = true) :
    (∃ n, d = tag n ∧ Name.reader (d.text ++ e) = .found n e) ∨
    (d = wildcard ∧ Name.reader (d.text ++ e) = .refused) ∨
    ∃ i o body, d = time i o ∧ body.all isPlain = true ∧
      Name.reader (d.text ++ e) = .found "time".toList ('(' :: body ++ ')' :: e) := by
  cases d with
  | tag n => exact .inl ⟨n, rfl, Name.reader_text fun _ => startsWith_of_ends he⟩
  | wildcard => exact .inr (.inl ⟨rfl, rfl⟩)
  | regex r => exact absurd rfl (hd r)
  | time i o =>
    obtain ⟨body, htext, hbody⟩ := text_time i o
    refine .inr (.inr ⟨i, o, body, rfl, hbody, ?_⟩)
    have hname : Name.text "time".toList = "time".toList := by decide
    have hread := Name.reader_text (n := "time".toList) fun _ =>
      (rfl : Text.startsWith Text.isWordPart ('(' :: body ++ ')' :: e) = false)
    rw [hname] at hread
    rw [htext, List.append_assoc, List.append_assoc]
    exact hread

theorem close_notMem {t : Text} (h : t.all isPlain = true) : ')' ∉ t :=
  fun hmem => absurd (List.all_eq_true.1 h _ hmem) (by decide)

/-- **A printed dimension tells its tags**, and where it ends. -/
theorem tags_eq_of_text {d d' : Dimension} {e e' : Text} (hd : ∀ r, d ≠ regex r) (hd' : ∀ r, d' ≠ regex r)
    (he : ends e = true) (he' : ends e' = true) (h : d.text ++ e = d'.text ++ e') (all : List Text) :
    d.tags all = d'.tags all ∧ e = e' := by
  rcases read_text hd he with ⟨n, rfl, hread⟩ | ⟨rfl, hread⟩ | ⟨i, o, body, rfl, hbody, hread⟩ <;>
  rcases read_text hd' he' with ⟨n', rfl, hread'⟩ | ⟨rfl, hread'⟩ | ⟨i', o', body', rfl, hbody', hread'⟩ <;>
  rw [h, hread'] at hread
  · cases hread
    exact ⟨rfl, rfl⟩
  · cases hread
  · cases hread
    cases he
  · cases hread
  · exact ⟨rfl, (List.cons.inj h).2⟩
  · cases hread
  · cases hread
    cases he'
  · cases hread
  · have hrest := (Outcome.found.inj hread).2
    exact ⟨rfl, (Text.append_cons_inj (close_notMem hbody') (close_notMem hbody) (List.cons.inj hrest).2).2.symm⟩

theorem ends_of_breaks {e : Text} (h : Text.breaks e = true) : ends e = true := by
  cases e with
  | nil => rfl
  | cons c e =>
    rw [Text.breaks, beq_iff_eq] at h
    rw [h]
    rfl

theorem ends_behind {e : Text} (h : Text.breaks e = true) (ts : List Text) :
    ends (Text.behind ", ".toList ts ++ e) = true :=
  Text.behind_append (P := fun e => ends e = true) (fun _ => rfl) (ends_of_breaks h) ts

/-- **Printed dimensions tell the tags that they group by.** -/
theorem tags_eq_of_behind {e e' : Text} (he : Text.breaks e = true) (he' : Text.breaks e' = true) (all : List Text) :
    ∀ {ds ds' : List Dimension}, (∀ d ∈ ds, ∀ r, d ≠ regex r) → (∀ d ∈ ds', ∀ r, d ≠ regex r) →
      Text.behind ", ".toList (ds.map text) ++ e = Text.behind ", ".toList (ds'.map text) ++ e' →
      ds.flatMap (tags all) = ds'.flatMap (tags all)
  | [], [], _, _, _ => rfl
  | [], d' :: ds', _, _, h => by
    rw [show e = _ from h] at he
    cases he
  | d :: ds, [], _, _, h => by
    rw [show e' = _ from h.symm] at he'
    cases he'
  | d :: ds, d' :: ds', hds, hds', h => by
    obtain ⟨hd, hds⟩ := List.forall_mem_cons.1 hds
    obtain ⟨hd', hds'⟩ := List.forall_mem_cons.1 hds'
    simp only [List.map_cons, Text.behind_cons, List.append_assoc, List.append_cancel_left_eq] at h
    obtain ⟨htags, hbehind⟩ := tags_eq_of_text hd hd' (ends_behind he _) (ends_behind he' _) h all
    rw [List.flatMap_cons, List.flatMap_cons, htags, tags_eq_of_behind he he' all hds hds' hbehind]

end Dimension

/-! ## Statements -/

namespace Select

/-- What a cacheable statement prints behind its dimensions. -/
def endText (s : Select) : Text := clause Fill.text s.fill ++ clause Order.text s.order

/-- What a statement without qualifiers and limits prints from its GROUP BY on. -/
def groupText (s : Select) : Text :=
  match s.dimensions with
  | [] => s.endText
  | d :: ds => " GROUP BY ".toList ++ (Text.join ", ".toList ((d :: ds).map Dimension.text) ++ s.endText)

/-- Nothing in the statement is ruled out for answers that are kept. -/
structure Plain (s : Select) (measurement : Text) : Prop where
  source : s.source = ⟨none, none, .name measurement⟩
  fill : s.fill = none ∨ s.fill = some .null
  order : s.order ≠ some .descending
  limit : s.limit = none
  offset : s.offset = none
  seriesLimit : s.seriesLimit = none
  seriesOffset : s.seriesOffset = none
  zone : s.zone = none
  dimensions : ∀ d ∈ s.dimensions, ∀ r, d ≠ .regex r

variable {s s' : Select} {measurement measurement' : Text}

theorem Plain.withCondition (h : s.Plain measurement) (condition : Option Condition) :
    { s with condition }.Plain measurement :=
  ⟨h.source, h.fill, h.order, h.limit, h.offset, h.seriesLimit, h.seriesOffset, h.zone, h.dimensions⟩

theorem tailText_of_plain (h : s.Plain measurement) : s.tailText = s.groupText := by
  rw [tailText, h.limit, h.offset, h.seriesLimit, h.seriesOffset, h.zone, groupText]
  simp only [countClause, clause, List.append_nil]
  cases s.dimensions with
  | nil => rfl
  | cons d ds => rw [if_neg (by simp), List.append_assoc, List.append_assoc]; rfl

theorem text_of_plain (h : s.Plain measurement) : s.text =
    "SELECT ".toList ++ Text.join ", ".toList (s.fields.map Field.text) ++ ' ' :: ("FROM".toList ++ ' ' ::
      (Name.text measurement ++ (s.whereText ++ s.groupText))) := by
  have hsource : s.source.text = Name.text measurement := by rw [h.source]; rfl
  rw [text_eq, tailText_of_plain h, hsource]

theorem breaks_endText (h : s.Plain measurement) : Text.breaks s.endText = true := by
  rw [endText]
  rcases h.fill with hfill | hfill <;> rw [hfill]
  · cases s.order <;> rfl
  · rfl

theorem breaks_whereText (s : Select) {e : Text} (he : Text.breaks e = true) :
    Text.breaks (s.whereText ++ e) = true := by
  rw [whereText]
  cases s.condition with
  | none => exact he
  | some c => rfl

theorem breaks_groupText (h : s.Plain measurement) : Text.breaks s.groupText = true := by
  rw [groupText]
  cases s.dimensions with
  | nil => exact breaks_endText h
  | cons d ds => rfl

theorem skips_fill (h : s.Plain measurement) : Skips "GROUP".toList (clause Fill.text s.fill) := by
  rcases h.fill with hfill | hfill <;> rw [hfill]
  · exact skips_nil _
  · have htext : clause Fill.text (some .null) = ' ' :: ("fill".toList ++ '(' :: ("null".toList ++ [')'])) := by decide
    have hnull : Skips "GROUP".toList ("null".toList ++ [')']) :=
      (skips_word (by decide) (by decide)).append_cons (by decide) (skips_nil _)
    rw [htext]
    exact ((skips_word (by decide) (by decide)).append_cons (by decide) hnull).cons (by decide)

theorem skips_order (h : s.Plain measurement) : Skips "GROUP".toList (clause Order.text s.order) := by
  have hword {v : Text} (hv : v.all Text.isWordPart = true) (hgroup : Text.sameWord "GROUP".toList v = false) :
      Skips "GROUP".toList v := skips_word hv hgroup
  cases horder : s.order with
  | none => exact skips_nil _
  | some order =>
    cases order with
    | descending => exact absurd horder h.order
    | ascending =>
      have htext : clause Order.text (some .ascending) =
          ' ' :: ("ORDER".toList ++ ' ' :: ("BY".toList ++ ' ' :: ("TIME".toList ++ ' ' :: "ASC".toList))) := by decide
      rw [htext]
      exact ((hword (by decide) (by decide)).append_cons (by decide) ((hword (by decide) (by decide)).append_cons
        (by decide) ((hword (by decide) (by decide)).append_cons (by decide) (hword (by decide) (by decide))))).cons
        (by decide)

theorem skips_endText (h : s.Plain measurement) : Skips "GROUP".toList s.endText :=
  (skips_fill h).append (skips_order h) (by cases s.order <;> rfl)

theorem skips_whereText (hprinted : Printed s) : Skips "GROUP".toList s.whereText := by
  rw [whereText]
  cases hcondition : s.condition with
  | none => exact skips_nil _
  | some c =>
    have htext : clause (fun c => "WHERE ".toList ++ Condition.text c) (some c) =
        ' ' :: ("WHERE".toList ++ ' ' :: c.text) := rfl
    rw [htext]
    exact ((skips_word (by decide) (by decide)).append_cons (by decide) (skips_condition isKeyword_group (by decide)
      (by decide) (hprinted.operands c hcondition))).cons (by decide)

/-- The walk over the statement stops at its FROM. -/
theorem passes_from (h : s.Plain measurement) (hprinted : Printed s) :
    Passes "FROM".toList s.text ("FROM".toList ++ ' ' :: (Name.text measurement ++ (s.whereText ++ s.groupText))) := by
  have hfields : Skips "FROM".toList (Text.join ", ".toList (s.fields.map Field.text)) :=
    skips_join (List.forall_mem_map.2 hprinted.fields)
  have hselect : Skips "FROM".toList ("SELECT".toList ++ ' ' :: Text.join ", ".toList (s.fields.map Field.text)) :=
    (skips_word (by decide) (by decide)).append_cons (by decide) hfields
  rw [text_of_plain h]
  exact (hselect _ rfl).trans (.step (next?_mark (by decide) _) (.done _))

/-- What the walk for the GROUP BY stops at. -/
def groupStop (s : Select) : Text :=
  match s.dimensions with
  | [] => []
  | d :: ds => "GROUP".toList ++ ' ' :: ("BY ".toList ++ (Text.join ", ".toList ((d :: ds).map Dimension.text) ++ s.endText))

/-- From there on it stops at the GROUP BY, or at the end. -/
theorem passes_group (h : s.Plain measurement) (hprinted : Printed s) :
    Passes "GROUP".toList (s.whereText ++ s.groupText) s.groupStop := by
  have hwhere := skips_whereText hprinted
  rw [groupText, groupStop]
  cases s.dimensions with
  | nil =>
    have hskips := hwhere.append (skips_endText h) (Text.startsWith_of_breaks (breaks_endText h) rfl)
    have hpasses := hskips [] rfl
    rwa [List.append_nil] at hpasses
  | cons d ds =>
    have hgroup : " GROUP BY ".toList = ' ' :: ("GROUP".toList ++ ' ' :: "BY ".toList) := by decide
    simp only [hgroup, List.append_assoc, List.cons_append]
    exact (hwhere _ rfl).trans (.step (next?_mark (by decide) _) (.done _))

theorem next?_groupStop (s : Select) : next? "GROUP".toList s.groupStop = none := by
  rw [groupStop]
  cases s.dimensions with
  | nil => rfl
  | cons d ds => exact next?_self (by decide) (by decide) rfl

theorem tags_eq_of_groupStop (h : s.Plain measurement) (h' : s'.Plain measurement') (heq : s.groupStop = s'.groupStop)
    (all : List Text) : s.dimensions.flatMap (Dimension.tags all) = s'.dimensions.flatMap (Dimension.tags all) := by
  have hregex := h.dimensions
  have hregex' := h'.dimensions
  rw [groupStop, groupStop] at heq
  generalize s.dimensions = dimensions at heq hregex
  generalize s'.dimensions = dimensions' at heq hregex'
  have hne (rest : Text) : "GROUP".toList ++ rest ≠ [] := List.append_ne_nil_of_left_ne_nil (by decide) rest
  cases dimensions with
  | nil =>
    cases dimensions' with
    | nil => rfl
    | cons d' ds' => exact absurd heq.symm (hne _)
  | cons d ds =>
    cases dimensions' with
    | nil => exact absurd heq (hne _)
    | cons d' ds' =>
      have hjoin := List.append_cancel_left (List.cons.inj (List.append_cancel_left heq)).2
      refine Dimension.tags_eq_of_behind (breaks_endText h) (breaks_endText h') all hregex hregex' ?_
      rw [List.map_cons, List.map_cons, Text.behind_cons, Text.behind_cons, ← Text.join_cons, ← Text.join_cons,
        List.append_assoc, List.append_assoc]
      exact congrArg (", ".toList ++ ·) hjoin

/-- **Statements with one text have the same parts**: the fields in front of the FROM, the measurement, and what
follows it. -/
theorem parts_eq_of_text (h : s.Plain measurement) (h' : s'.Plain measurement') (hprinted : Printed s)
    (hprinted' : Printed s') (htext : s.text = s'.text) :
    Text.join ", ".toList (s.fields.map Field.text) = Text.join ", ".toList (s'.fields.map Field.text) ∧
      measurement = measurement' ∧ s.whereText ++ s.groupText = s'.whereText ++ s'.groupText := by
  have hpasses := passes_from h hprinted
  rw [htext] at hpasses
  have hfrom := hpasses.unique (passes_from h' hprinted') (next?_self (by decide) (by decide) rfl)
    (next?_self (by decide) (by decide) rfl)
  rw [text_of_plain h, text_of_plain h', hfrom, List.append_cancel_right_eq] at htext
  have hsource := (List.cons.inj (List.append_cancel_left hfrom)).2
  have hread {s : Select} {measurement : Text} (h : s.Plain measurement) :
      Name.reader (Name.text measurement ++ (s.whereText ++ s.groupText)) =
        .found measurement (s.whereText ++ s.groupText) :=
    Name.reader_text fun _ => Text.startsWith_of_breaks (breaks_whereText s (breaks_groupText h)) rfl
  have hname := hread h
  rw [hsource, hread h'] at hname
  obtain ⟨hmeasurement, hrest⟩ := Outcome.found.inj hname
  exact ⟨List.append_cancel_left htext, hmeasurement.symm, hrest.symm⟩

/-- **Statements with one text group by the same tags.** -/
theorem tags_eq_of_text (h : s.Plain measurement) (h' : s'.Plain measurement') (hprinted : Printed s)
    (hprinted' : Printed s') (htext : s.text = s'.text) (all : List Text) :
    s.dimensions.flatMap (Dimension.tags all) = s'.dimensions.flatMap (Dimension.tags all) := by
  obtain ⟨-, -, hrest⟩ := parts_eq_of_text h h' hprinted hprinted' htext
  have hpasses := passes_group h hprinted
  rw [hrest] at hpasses
  exact tags_eq_of_groupStop h h' (hpasses.unique (passes_group h' hprinted') (next?_groupStop s)
    (next?_groupStop s')) all

theorem head_groupText (h : s.Plain measurement) : s.groupText.tail.head? ≠ some 'W' := by
  rw [groupText]
  cases s.dimensions with
  | nil =>
    simp only [endText]
    rcases h.fill with hfill | hfill <;> rw [hfill]
    · cases s.order with
      | none => decide
      | some order => cases order <;> decide
    · intro h'
      cases h'
  | cons d ds =>
    intro h'
    cases h'

theorem condition_eq_none (h' : s'.Plain measurement') (hnone : s'.condition = none)
    (heq : s.whereText ++ s.groupText = s'.whereText ++ s'.groupText) :
    s.condition = none ∧ s.groupText = s'.groupText := by
  have hwhere {s : Select} (hnone : s.condition = none) : s.whereText = [] := by
    rw [whereText, hnone]
    rfl
  rw [hwhere hnone, List.nil_append] at heq
  cases hcondition : s.condition with
  | none =>
    rw [hwhere hcondition] at heq
    exact ⟨rfl, heq⟩
  | some c =>
    refine absurd ?_ (head_groupText h')
    rw [← heq, whereText, hcondition]
    rfl

end Select

/-! ## Requests -/

namespace Request

theorem of_read {context : Context} {q : Text} {r : Request} (h : read context q = .ok r) :
    Printed r.statement ∧ r.statement.source.name = .name r.measurement ∧
      r.groupTags = groupTagsOf context r.measurement r.statement.dimensions ∧
      r.regexDimension = hasRegex r.statement.dimensions ∧ r.aggregation = aggregationOf r.statement.fields := by
  obtain ⟨-, s, measurement, findings, hselect, hname, -, rfl⟩ := read_eq_ok_iff.1 h
  exact ⟨printed_of_read hselect, hname, rfl, rfl, rfl⟩

/-- A projection that is printed without parentheses calls no function. -/
theorem aggregationOf_eq_none {fields : List Field}
    (h : '(' ∉ Text.join ", ".toList (fields.map Field.text)) : aggregationOf fields = none := by
  refine List.findSome?_eq_none_iff.2 fun f hf => ?_
  cases hexpr : f.expr with
  | call function args =>
    refine absurd (Text.mem_join (s := f.text) ?_ (List.mem_map_of_mem hf)) h
    rw [Field.text, hexpr, FieldExpr.text]
    exact List.mem_append_left _ (List.mem_append_left _ (List.mem_append_right _ List.mem_cons_self))
  | wildcard => rfl
  | name => rfl
  | literal => rfl

/-- The statement that is printed as the signature. -/
def timeless (r : Request) : Select := { r.statement with condition := r.conditionWithoutTime }

theorem printed_timeless {r : Request} (h : Printed r.statement) : Printed r.timeless := by
  refine ⟨h.fields, fun c hc => ?_⟩
  obtain ⟨d, hd, hc⟩ := Option.bind_eq_some_iff.1 hc
  exact operands_without timeName hc (h.operands d hd)

theorem plain_statement {context : Context} {q : Text} {r : Request} (hread : read context q = .ok r)
    (h : r.isCacheable = true) : r.statement.Plain r.measurement := by
  obtain ⟨-, hname, -, hregex, -⟩ := of_read hread
  simp only [isCacheable, Bool.and_eq_true, Bool.or_eq_true, Option.isNone_iff_eq_none, beq_iff_eq, bne_iff_ne,
    Bool.not_eq_true'] at h
  obtain ⟨⟨⟨⟨⟨⟨⟨⟨⟨⟨⟨hdatabase, hpolicy⟩, hfill⟩, hlimit⟩, hoffset⟩, hseriesLimit⟩, hseriesOffset⟩, hzone⟩, horder⟩,
    -⟩, -⟩, hdimensions⟩ := h
  have hsource : r.statement.source = ⟨none, none, .name r.measurement⟩ := calc
    r.statement.source = ⟨r.statement.source.database, r.statement.source.policy, r.statement.source.name⟩ := rfl
    _ = _ := by rw [hdatabase, hpolicy, hname]
  refine ⟨hsource, hfill, horder, hlimit, hoffset, hseriesLimit, hseriesOffset, hzone, fun d hd regex hd' => ?_⟩
  rw [hregex, hasRegex, List.any_eq_false] at hdimensions
  exact hdimensions d hd (by rw [hd'])

theorem plain_timeless {context : Context} {q : Text} {r : Request} (hread : read context q = .ok r)
    (h : r.isCacheable = true) : r.timeless.Plain r.measurement := (plain_statement hread h).withCondition _

theorem parts_eq_of_signature {context : Context} {q q' : Text} {r r' : Request} (hread : read context q = .ok r)
    (hread' : read context q' = .ok r') (hcache : r.isCacheable = true) (hcache' : r'.isCacheable = true)
    (h : r.signature = r'.signature) :
    Text.join ", ".toList (r.statement.fields.map Field.text) =
      Text.join ", ".toList (r'.statement.fields.map Field.text) ∧
      r.measurement = r'.measurement ∧ r.timeless.whereText ++ r.timeless.groupText =
        r'.timeless.whereText ++ r'.timeless.groupText :=
  Select.parts_eq_of_text (plain_timeless hread hcache) (plain_timeless hread' hcache')
    (printed_timeless (of_read hread).1) (printed_timeless (of_read hread').1) h

/-- **Requests with one signature group by the same tags**, when their answers are kept. -/
theorem groupTags_eq_of_signature {context : Context} {q q' : Text} {r r' : Request} (hread : read context q = .ok r)
    (hread' : read context q' = .ok r') (hcache : r.isCacheable = true) (hcache' : r'.isCacheable = true)
    (h : r.signature = r'.signature) : r.groupTags = r'.groupTags := by
  obtain ⟨hprinted, -, hgroup, -⟩ := of_read hread
  obtain ⟨hprinted', -, hgroup', -⟩ := of_read hread'
  obtain ⟨-, hmeasurement, -⟩ := parts_eq_of_signature hread hread' hcache hcache' h
  have htags := Select.tags_eq_of_text (plain_timeless hread hcache) (plain_timeless hread' hcache')
    (printed_timeless hprinted) (printed_timeless hprinted') h (context.catalog.tagKeys r.measurement)
  rw [hgroup, hgroup', Dimension.groupTagsOf_eq, Dimension.groupTagsOf_eq, ← hmeasurement]
  exact congrArg (Text.distinctOn id) htags

/-- The statement that is printed for another window. -/
def windowed (r : Request) (first last : Int64) : Select :=
  { r.statement with condition := some (conditionIn (windowCondition first last) r.conditionWithoutTime) }

/-- **Requests without predicates and with one signature are asked again in the same words.** -/
theorem inWindow_eq_of_signature {context : Context} {q q' : Text} {r r' : Request} (hread : read context q = .ok r)
    (hread' : read context q' = .ok r') (hcache : r.isCacheable = true) (hcache' : r'.isCacheable = true)
    (h : r.signature = r'.signature) (hnone : r'.conditionWithoutTime = none) (first last : Int64) :
    r.inWindow first last = r'.inWindow first last := by
  obtain ⟨hfields, hmeasurement, hrest⟩ := parts_eq_of_signature hread hread' hcache hcache' h
  obtain ⟨hnone', hgroup⟩ := Select.condition_eq_none (plain_timeless hread' hcache') hnone hrest
  have hnone' : r.conditionWithoutTime = none := hnone'
  have hgroup : (r.windowed first last).groupText = (r'.windowed first last).groupText := hgroup
  have hwhere : (r.windowed first last).whereText = (r'.windowed first last).whereText := by
    rw [windowed, windowed, hnone, hnone']
    rfl
  have htext := Select.text_of_plain (s := r.windowed first last) ((plain_statement hread hcache).withCondition _)
  have htext' := Select.text_of_plain (s := r'.windowed first last) ((plain_statement hread' hcache').withCondition _)
  have hfields : Text.join ", ".toList ((r.windowed first last).fields.map Field.text) =
      Text.join ", ".toList ((r'.windowed first last).fields.map Field.text) := hfields
  rw [hwhere, hgroup, hfields, hmeasurement, ← htext'] at htext
  exact htext

end Request
end SeriesCache
