import SeriesCache.Proofs.Query.Pruning
/-!
# Every comparison is told

A walk visits the parts of a condition from left to right, each before its own parts, and shows a comparison in the role
that it has in the nearest join and whether one of the joins around it is an OR (`Condition.walk_eq_foldlM_places`).  So
a query with a named measurement is refused for the first comparison on time without an instant, and else becomes a
request whose predicates are all other comparisons, in order; it is not cacheable if there is an OR anywhere in its
condition (`Request.comparisons_told`).
-/
namespace SeriesCache

/-! ## Places -/

namespace Condition

/-- A part of a condition, and the connectives of the joins around it, the nearest one first. -/
structure Place where
  part : Condition
  around : List Connective

def Role.nearest : List Connective → Role
  | [] => alone
  | op :: _ => ofConnective op

namespace Place

/-- The place where the condition itself stands within further joins. -/
def within (outer : List Connective) (p : Place) : Place := { p with around := p.around ++ outer }

/-- What a visitor is shown at the place. -/
def node (p : Place) : Node :=
  match p.part with
  | .comparison c => .comparison c (.nearest p.around) (p.around.contains .or)
  | .joined a op b => .joined a op b
  | .group a => .group a

end Place

/-- The parts of a condition from left to right, each before its own parts. -/
def places : Condition → List Place
  | comparison c => [⟨comparison c, []⟩]
  | joined a op b => ⟨joined a op b, []⟩ :: (a.places ++ b.places).map (.within [op])
  | group a => ⟨group a, []⟩ :: a.places

theorem Place.within_within (outer inner : List Connective) (p : Place) :
    (p.within inner).within outer = p.within (inner ++ outer) := by
  rw [within, within, within, List.append_assoc]

/-- Role and mark that are handed down are those of the joins around. -/
theorem nodesAt_eq_map_places (c : Condition) (outer : List Connective) :
    c.nodesAt (.nearest outer) (outer.contains .or) = (c.places.map (.within outer)).map Place.node := by
  induction c generalizing outer with
  | comparison x => rfl
  | joined a op b iha ihb =>
    have hmark : (outer.contains .or || op == .or) = (op :: outer).contains .or := by
      cases op <;> simp
    have hwithin (ps : List Place) : (ps.map (Place.within [op])).map (Place.within outer) =
        ps.map (Place.within (op :: outer)) := by
      rw [List.map_map]
      exact List.map_congr_left fun p _ => Place.within_within outer [op] p
    have ha := iha (op :: outer)
    have hb := ihb (op :: outer)
    rw [← hmark] at ha hb
    rw [places, List.map_cons, hwithin, List.map_cons, List.map_append, List.map_append, ← ha, ← hb]
    rfl
  | group a ih =>
    rw [places, List.map_cons, List.map_cons, ← ih]
    rfl

theorem nodes_eq_map_places (c : Condition) : c.nodes = c.places.map Place.node := by
  have hself : c.places.map (.within []) = c.places :=
    List.map_id'' (fun p => by rw [Place.within, List.append_nil]) _
  have hnodes := nodesAt_eq_map_places c []
  rwa [hself] at hnodes

/-- **A walk visits all places from left to right**, until a visit stops it. -/
theorem walk_eq_foldlM_places {σ β : Type} (visit : σ → Node → Except β σ) (c : Condition) (s : σ) :
    c.walk visit s = (c.places.map Place.node).foldlM visit s := by
  rw [walk_eq_foldlM, nodes_eq_map_places]

/-- Below an OR there is a comparison, and it is marked. -/
theorem any_isUnderOr_of_or {c a b : Condition} {p : Place} (hp : p ∈ c.places) (hpart : p.part = joined a .or b)
    (role : Role) (underOr : Bool) : (c.nodesAt role underOr).any Node.isUnderOr = true := by
  induction c generalizing p role underOr with
  | comparison x =>
    rw [List.mem_singleton.1 hp] at hpart
    cases hpart
  | joined left op right ihleft ihright =>
    rcases List.mem_cons.1 hp with rfl | hp
    · cases hpart
      obtain ⟨x, hx⟩ := List.exists_mem_of_ne_nil _ a.comparisons_ne_nil
      obtain ⟨role', hnode⟩ := exists_mem_nodesAt hx (.ofConnective .or)
      rw [nodesAt, List.any_append, List.any_cons, Bool.or_eq_true, Bool.or_eq_true, List.any_eq_true]
      have hmark : (underOr || Connective.or == .or) = true := Bool.or_true underOr
      refine .inl (.inr ⟨.comparison x role' true, ?_, rfl⟩)
      rwa [hmark]
    · obtain ⟨p', hp', rfl⟩ := List.mem_map.1 hp
      rw [nodesAt, List.any_append, List.any_cons, Bool.or_eq_true, Bool.or_eq_true]
      rcases List.mem_append.1 hp' with hp' | hp'
      · exact .inl (.inr (ihleft hp' hpart _ _))
      · exact .inr (ihright hp' hpart _ _)
  | group inner ih =>
    rcases List.mem_cons.1 hp with rfl | hp
    · cases hpart
    · rw [nodesAt, List.any_cons, ih hp hpart, Bool.or_true]

end Condition

/-! ## Refusals -/

/-- Whether the comparison is on time and has no instant on its right side. -/
def Comparison.lacksInstant (now : Int64) (c : Comparison) : Bool :=
  c.isOnTime && (c.operand.expr.instant? now).isNone

theorem Comparison.isTimed_iff {now : Int64} {c : Comparison} : c.IsTimed now ↔ c.lacksInstant now = false := by
  unfold IsTimed lacksInstant
  cases c.isOnTime with
  | false => simp
  | true => cases c.operand.expr.instant? now <;> simp

namespace Findings

open Condition (Node)

variable {context : Context} {measurement : Text} {e : RequestError}

theorem meet_of_lacksInstant {c : Comparison} (h : c.lacksInstant context.now = true) (f : Findings)
    (role : Condition.Role) (underOr : Bool) :
    meet context measurement f (.comparison c role underOr) = .error (.noInstant c.operand.text) := by
  obtain ⟨htime, hnone⟩ := Bool.and_eq_true_iff.1 h
  simp only [meet, if_pos htime, Option.isNone_iff_eq_none.1 hnone]

theorem find?_lacksInstant_cons {n : Node} {ns : List Node} {now : Int64}
    (hn : ∀ c ∈ n.comparison?, c.lacksInstant now = false) :
    ((n :: ns).filterMap Node.comparison?).find? (Comparison.lacksInstant now) =
      (ns.filterMap Node.comparison?).find? (Comparison.lacksInstant now) := by
  cases hcomparison : n.comparison? with
  | none => rw [List.filterMap_cons_none hcomparison]
  | some c => rw [List.filterMap_cons_some hcomparison, List.find?_cons_of_neg (by simp [hn c hcomparison])]

/-- The way stops at the first comparison on time without an instant, and nowhere else. -/
theorem foldlM_meet_eq_error_iff : ∀ {ns : List Node} {f : Findings},
    ns.foldlM (meet context measurement) f = .error e ↔
      ∃ c, (ns.filterMap Node.comparison?).find? (Comparison.lacksInstant context.now) = some c ∧
        e = .noInstant c.operand.text
  | [], f => by
    constructor
    · intro h
      cases h
    · rintro ⟨c, h, -⟩
      cases h
  | n :: ns, f => by
    rw [List.foldlM_cons]
    by_cases hn : ∃ c ∈ n.comparison?, c.lacksInstant context.now = true
    · obtain ⟨c, hc, hlacks⟩ := hn
      cases n with
      | comparison x role underOr =>
        cases hc
        have hcomparison : Node.comparison? (.comparison c role underOr) = some c := rfl
        rw [meet_of_lacksInstant hlacks, List.filterMap_cons_some hcomparison, List.find?_cons_of_pos hlacks]
        constructor
        · intro h
          cases h
          exact ⟨c, rfl, rfl⟩
        · rintro ⟨_, h, rfl⟩
          cases h
          rfl
      | joined a op b => cases hc
      | group a => cases hc
    · have htimed : ∀ c ∈ n.comparison?, c.lacksInstant context.now = false :=
        fun c hc => Bool.eq_false_iff.2 fun h => hn ⟨c, hc, h⟩
      obtain ⟨g, hg⟩ : ∃ g, meet context measurement f n = .ok g :=
        exists_meet (fun c hc => Comparison.isTimed_iff.2 (htimed c hc)) f
      rw [hg, find?_lacksInstant_cons htimed]
      exact foldlM_meet_eq_error_iff

theorem ofCondition?_eq_error_iff {s : Select} : ofCondition? context measurement s.condition = .error e ↔
    ∃ c, s.comparisons.find? (Comparison.lacksInstant context.now) = some c ∧ e = .noInstant c.operand.text := by
  unfold Select.comparisons
  cases s.condition with
  | none =>
    constructor
    · intro h
      cases h
    · rintro ⟨c, h, -⟩
      cases h
  | some c =>
    rw [ofCondition?, Condition.walk_eq_foldlM, foldlM_meet_eq_error_iff, Condition.nodes, Condition.comparisons_nodesAt]

end Findings

/-! ## Requests -/

/-- The parts of a statement's condition, none when it has no condition. -/
def Select.places (s : Select) : List Condition.Place :=
  match s.condition with
  | none => []
  | some c => c.places

/-- The comparisons of a statement that are not on time, each with its role. -/
def Select.predicates (s : Select) : List Predicate := s.places.filterMap fun p => p.node.predicate?

theorem Findings.records_of_ofCondition? {context : Context} {measurement : Text} {s : Select} {f : Findings}
    (h : ofCondition? context measurement s.condition = .ok f) :
    none.Records context measurement (s.places.map Condition.Place.node) f := by
  unfold Select.places
  cases hcondition : s.condition with
  | none =>
    rw [hcondition] at h
    cases h
    exact .nil none
  | some c =>
    rw [hcondition, ofCondition?, Condition.walk_eq_foldlM_places] at h
    exact records_of_foldlM h

namespace Request

section

variable {context : Context} {q : Text} {s : Select}

theorem startsWithSelect_append {b w : Text} (hb : b.all Text.isBlank = true)
    (hw : Text.lower w = Text.lower "select".toList) (rest : Text) : startsWithSelect (b ++ (w ++ rest)) = true := by
  have hwhite : Text.startsWith Text.isWhite (w ++ rest) = false := by
    cases w with
    | nil => cases hw
    | cons c w =>
      have hc : c.toLower = 's' := (List.cons.inj hw).1
      have hpart : Text.isWordPart c = true := by rw [← Text.isWordPart_toLower, hc]; rfl
      exact Text.isWhite_of_isWordPart hpart
  have hblank : b.all Text.isWhite = true :=
    List.all_eq_true.2 fun c hc => Text.isWhite_of_isBlank (List.all_eq_true.1 hb c hc)
  rw [startsWithSelect, Text.trimStart, Text.dropWhile_append_of_all hblank hwhite,
    Text.dropPrefixAnyCase?_eq_some_iff.2 ⟨w, rfl, hw⟩]
  rfl

/-- What is read as a statement starts like one. -/
theorem startsWithSelect_of_read (h : Select.read q = .ok s) : startsWithSelect q = true := by
  obtain ⟨r₀, _, _, _, _, _, hkeyword, -⟩ := Select.read_eq_ok_iff.1 h
  obtain ⟨_, _, hblanks, hkeyword⟩ := Reader.bind_eq_found_iff.1 hkeyword
  cases hblanks
  replace hkeyword := Reader.must_eq_found_iff.1 hkeyword
  split at hkeyword
  · rename_i rest hdrop
    obtain ⟨w, hsplit, hw⟩ := Text.dropPrefixAnyCase?_eq_some_iff.1 hdrop
    have hq : q = q.takeWhile Text.isBlank ++ (w ++ rest) := by
      rw [← hsplit]
      exact List.takeWhile_append_dropWhile.symm
    rw [hq]
    exact startsWithSelect_append List.all_takeWhile hw rest
  · cases hkeyword

theorem read_of_select (h : Select.read q = .ok s) : read context q = ofSelect context s := by
  rw [read, if_pos (startsWithSelect_of_read h), h]

theorem ofSelect_eq_map {m : Text} (hname : s.source.name = .name m) : ofSelect context s =
    (Findings.ofCondition? context m s.condition).map (ofFindings context m s) := by
  rw [ofSelect, hname]
  rfl

theorem read_eq_error_iff {m : Text} {e : RequestError} (h : Select.read q = .ok s) (hname : s.source.name = .name m) :
    read context q = .error e ↔ ∃ c, s.comparisons.find? (Comparison.lacksInstant context.now) = some c ∧
      e = .noInstant c.operand.text := by
  rw [read_of_select h, ofSelect_eq_map hname, Outcome.map_eq_error_iff, Findings.ofCondition?_eq_error_iff]

/-- A request that is cacheable has no OR in its condition. -/
theorem ne_or_of_isCacheable {m : Text} {f : Findings} {p : Condition.Place} {a b : Condition}
    (hf : Findings.ofCondition? context m s.condition = .ok f)
    (hcacheable : (ofFindings context m s f).isCacheable = true) (hp : p ∈ s.places) : p.part ≠ .joined a .or b := by
  intro hpart
  have hmark : f.underOr = true := by
    unfold Select.places at hp
    cases hcondition : s.condition with
    | none =>
      rw [hcondition] at hp
      cases hp
    | some c =>
      rw [hcondition] at hp hf
      rw [Findings.ofCondition?, Condition.walk_eq_foldlM] at hf
      rw [(Findings.records_of_foldlM hf).underOr, Condition.nodes, Condition.any_isUnderOr_of_or hp hpart, Bool.or_true]
  simp [isCacheable, ofFindings, hmark] at hcacheable

end

/-- **No comparison is lost.**  A walk visits all places of a condition from left to right.  So a query is refused for the
first comparison on time that has no instant; when there is none, the other comparisons are the predicates, each in its
role and in order, and the request is cacheable only if no join is an OR. -/
theorem comparisons_told :
    (∀ {σ β : Type} (visit : σ → Condition.Node → Except β σ) (c : Condition) (start : σ),
      c.walk visit start = (c.places.map Condition.Place.node).foldlM visit start) ∧
    ∀ (context : Context) {q : Text} {s : Select} {m : Text}, Select.read q = .ok s → s.source.name = .name m →
      (∀ e, read context q = .error e ↔ ∃ c,
        s.comparisons.find? (Comparison.lacksInstant context.now) = some c ∧ e = .noInstant c.operand.text) ∧
      ((∀ c ∈ s.comparisons, c.lacksInstant context.now = false) → ∃ r, read context q = .ok r ∧
        r.tagPredicates = (s.predicates.filter fun p => context.catalog.isTag m p.name) ∧
        r.fieldPredicates = (s.predicates.filter fun p => !context.catalog.isTag m p.name) ∧
        (r.isCacheable = true → ∀ p ∈ s.places, ∀ a b, p.part ≠ .joined a .or b)) := by
  refine ⟨fun visit c start => c.walk_eq_foldlM_places visit start, fun context {q s m} hread hname => ?_⟩
  refine ⟨fun e => read_eq_error_iff hread hname, fun htimed => ?_⟩
  obtain ⟨f, hf⟩ : ∃ f, Findings.ofCondition? context m s.condition = .ok f :=
    Findings.exists_ofCondition? fun c hc => Comparison.isTimed_iff.2 (htimed c hc)
  have hrecords := Findings.records_of_ofCondition? hf
  have hpredicates : (s.places.map Condition.Place.node).filterMap Condition.Node.predicate? = s.predicates :=
    List.filterMap_map
  refine ⟨ofFindings context m s f, ?_, ?_, ?_, fun hcacheable p hp a b => ne_or_of_isCacheable hf hcacheable hp⟩
  · rw [read_of_select hread, ofSelect_eq_map hname, hf]
    rfl
  · exact (hpredicates ▸ hrecords.tags).trans (List.nil_append _)
  · exact (hpredicates ▸ hrecords.fields).trans (List.nil_append _)

/-! ## A comparison under an OR -/

namespace Told

def context : Context := ⟨Catalog.empty.withTags "m".toList ["h".toList], 0⟩

def host : Comparison := ⟨"h".toList, .eq, ⟨"'x'".toList, .literal (.string "x".toList)⟩⟩

def low : Comparison := ⟨"b".toList, .lt, ⟨"3".toList, .literal (.integer 3)⟩⟩

/-- The values of one host that are low, or later than an instant. -/
def statement (instant : Operand) : Select where
  fields := [⟨.name "v".toList none, none⟩]
  source := ⟨none, none, .name "m".toList⟩
  condition := some (.joined (.comparison host) .and
    (.group (.joined (.comparison low) .or (.comparison ⟨timeName, .gt, instant⟩))))
  dimensions := []
  fill := none
  order := none
  limit := none
  offset := none
  seriesLimit := none
  seriesOffset := none
  zone := none

theorem read_instant : Select.read "SELECT v FROM m WHERE h = 'x' AND (b < 3 OR time > 5)".toList =
    .ok (statement ⟨"5".toList, .literal (.integer 5)⟩) :=
  Outcome.eq_ok_of_toOption (by decide +kernel)

theorem read_word : Select.read "SELECT v FROM m WHERE h = 'x' AND (b < 3 OR time > 'soon')".toList =
    .ok (statement ⟨"'soon'".toList, .literal (.string "soon".toList)⟩) :=
  Outcome.eq_ok_of_toOption (by decide +kernel)

end Told

theorem comparisons_told_host :
    read Told.context "SELECT v FROM m WHERE h = 'x' AND (b < 3 OR time > 'soon')".toList =
      .error (.noInstant "'soon'".toList) ∧
    ∃ r, read Told.context "SELECT v FROM m WHERE h = 'x' AND (b < 3 OR time > 5)".toList = .ok r ∧
      r.tagPredicates = [.ofComparison Told.host .conjunct] ∧ r.fieldPredicates = [.ofComparison Told.low .disjunct] ∧
      r.isCacheable = false := by
  refine ⟨((comparisons_told.2 Told.context Told.read_word rfl).1 _).2 ⟨_, rfl, rfl⟩, ?_⟩
  obtain ⟨r, hread, htags, hfields, hcacheable⟩ := (comparisons_told.2 Told.context Told.read_instant rfl).2 (by decide)
  refine ⟨r, hread, htags, hfields, Bool.eq_false_iff.2 fun h => ?_⟩
  exact hcacheable h ⟨_, [.and]⟩ (List.mem_cons_of_mem _ (List.mem_cons_of_mem _ (List.mem_cons_of_mem _
    List.mem_cons_self))) _ _ rfl

end Request
end SeriesCache
