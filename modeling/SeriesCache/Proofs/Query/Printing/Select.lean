import SeriesCache.Proofs.Query.Printing.Clause
import SeriesCache.Proofs.Query.Printing.Field
import SeriesCache.Proofs.Query.Rewrite
/-!
# Reading printed statements

A statement that was read is read again from its printed form exactly when it is legible: when every field is, and the
fill.  The other parts, and the blanks between them, are always read again as they were.  So statements that are legible
have one printed form only when they are one statement, up to the sign of a fill with zero (`Select.survives_printing`).
-/
namespace SeriesCache

open Reader
open Text (Lacks)

variable {rest : Text}

/-! ## Clause by clause -/

/-- A clause's text starts with a word, and no longer one. -/
structure OpensWith {α : Type} (w : Text) (text : α → Text) : Prop where
  start : Text.startsWith Text.isWordStart w = true
  parts : w.all Text.isWordPart = true
  text : ∀ a, ∃ r, text a = w ++ r ∧ r ≠ [] ∧ Lacks Text.isWordPart r

theorem OpensWith.text_start {α : Type} {w : Text} {text : α → Text} (h : OpensWith w text) (a : α) :
    text a ≠ [] ∧ Lacks Text.isBlank (text a) := by
  obtain ⟨r, htext, hne, -⟩ := h.text a
  rw [htext]
  exact ⟨List.append_ne_nil_of_right_ne_nil w hne, Text.lacks_of_startsWith (Text.startsWith_append h.start r) fun _ hc =>
    Text.isBlank_of_isWordPart (Text.isWordPart_of_isWordStart hc)⟩

/-- The rest of a statement is read up to the end of the text, and starts with one of the words. -/
structure Reader.Ends {β : Type} (p : Reader β) (words : List Text) (t : Text) (b : β) (L : Prop) : Prop where
  prints : p.Prints (· = []) t b L
  starts : Clauses words t

namespace Reader

section

variable {α β : Type} {p : Reader α} {f : Option α → Reader β} {text : α → Text} {a? : Option α} {w u : Text}
  {words : List Text} {b : β} {L : Prop}

/-- In front of the rest, a clause is read again exactly when its value is. -/
theorem Ends.prints_clause {settle : α → α} {C : α → Prop} (h : (f (a?.map settle)).Ends words u b L)
    (hopens : OpensWith w text) (hp : ∀ a, p.Prints (Clauses words) (text a) (settle a) (C a))
    (hrefused : ∀ rest, Clauses words rest → (do someBlanks; p : Reader α) rest = .refused)
    (htells : ∀ a'? s r, f a'? s = .found b r → a'? = a?.map settle) :
    (Select.clauseReader p >>= f).Ends (w :: words) (Select.clause text a? ++ u) b ((∀ a ∈ a?, C a) ∧ L) := by
  refine ⟨(Select.clause_prints settle (fun a _ => hp a) (fun a _ => hopens.text_start a) hrefused).bind h.prints ?_ htells,
    h.starts.clause hopens.start hopens.parts hopens.text a?⟩
  rintro _ rfl
  rw [List.append_nil]
  exact h.starts

/-- In front of the rest, a clause is read again when its value is. -/
theorem Ends.again_clause (h : (f a?).Ends words u b L) (hopens : OpensWith w text)
    (hp : ∀ a ∈ a?, p.Again (Clauses words) (text a) a)
    (hrefused : ∀ rest, Clauses words rest → (do someBlanks; p : Reader α) rest = .refused) :
    (Select.clauseReader p >>= f).Ends (w :: words) (Select.clause text a? ++ u) b L := by
  refine ⟨(Select.again_clause hp (fun a _ => hopens.text_start a) hrefused).prints_bind h.prints ?_,
    h.starts.clause hopens.start hopens.parts hopens.text a?⟩
  rintro _ rfl
  rw [List.append_nil]
  exact h.starts

end

end Reader

/-! ## Parts of a statement -/

theorem Source.reads_of_found {t : Text} {source : Source} (h : reader t = .found source rest) : source.name.Reads := by
  have hname : (SourceName.name <$> Name.reader <|> SourceName.regex <$> Regex.reader).Takes fun _ n => n.Reads :=
    .orElse (.map ((Scan.takes_name Scan.isKeyword_from).imp fun _ => trivial)) (.map Regex.takes_again_text)
  obtain ⟨_, r, -, h⟩ := bind_eq_found_iff.1 h
  obtain ⟨n, r', hn, h⟩ := bind_eq_found_iff.1 h
  cases h
  obtain ⟨_, -, hreads⟩ := hname r n _ hn
  exact hreads

namespace Select

/-- A statement whose parts were read. -/
structure Reads (s : Select) : Prop where
  fields : fieldsReader.Prints Field.ListEnd (' ' :: Text.join ", ".toList (s.fields.map Field.text)) s.fields
    (∀ f ∈ s.fields, f.expr.isLegible = true)
  source : s.source.name.Reads
  condition : ∀ c ∈ s.condition, c.Fits Condition.Reads .disjunction
  dimensions : ∀ d ∈ s.dimensions, d.Reads

/-- Whether the printed form tells the statement: its fields and its fill are legible. -/
def isLegible (s : Select) : Bool := s.fields.all (fun f => f.expr.isLegible) && s.fill.all Fill.isLegible

/-- The statement with its fill up to the sign of zero. -/
def settled (s : Select) : Select := { s with fill := s.fill.map Fill.settled }

/-! ## The clauses behind the condition -/

/-- The dimensions of a statement that groups by any. -/
def grouping (s : Select) : Option (List Dimension) := if s.dimensions.isEmpty then none else some s.dimensions

theorem getD_grouping (s : Select) : s.grouping.getD [] = s.dimensions := by
  unfold grouping
  cases s.dimensions <;> rfl

theorem mem_grouping {s : Select} {ds : List Dimension} : ds ∈ s.grouping ↔ s.dimensions ≠ [] ∧ s.dimensions = ds := by
  unfold grouping
  cases s.dimensions <;> simp

theorem tailText_eq (s : Select) : s.tailText = clause Dimension.listText s.grouping ++ (clause Fill.text s.fill ++
    (clause Order.text s.order ++ (countClause "LIMIT" s.limit ++ (countClause "OFFSET" s.offset ++
      (countClause "SLIMIT" s.seriesLimit ++ (countClause "SOFFSET" s.seriesOffset ++ (clause zoneText s.zone ++ []))))))) := by
  have hdimensions : (if s.dimensions.isEmpty then []
      else " GROUP BY ".toList ++ Text.join ", ".toList (s.dimensions.map Dimension.text)) =
        clause Dimension.listText s.grouping := by
    unfold grouping
    cases s.dimensions <;> rfl
  unfold tailText
  rw [hdimensions]
  simp only [List.append_assoc, List.append_nil]
  rfl

/-- In front of the rest, a count is read again. -/
theorem ends_count {β : Type} {f : Option UInt64 → Reader β} {words : List Text} {u : Text} {b : β} {L : Prop}
    {keyword : String} {fault : Fault} {n? : Option UInt64} (h : (f n?).Ends words u b L)
    (hstart : Text.startsWith Text.isWordStart keyword.toList = true) (hparts : keyword.toList.all Text.isWordPart = true)
    (hwords : ∀ v ∈ words, Text.sameWord keyword.toList v = false) :
    (clauseReader (countReader keyword fault) >>= f).Ends (keyword.toList :: words) (countClause keyword n? ++ u) b L := by
  have hne : keyword.toList ≠ [] := fun hnil => by
    rw [hnil] at hstart
    cases hstart
  refine h.again_clause ⟨hstart, hparts, fun n => ⟨_, rfl, List.cons_ne_nil _ _, rfl⟩⟩ (fun n _ => ?_)
    fun rest hrest => hrest.refused hparts hne hwords
  exact (countReader_again keyword fault n).mono fun rest hrest => hrest.lacks rfl

theorem opensWith_dimensions : OpensWith "GROUP".toList Dimension.listText :=
  ⟨by decide, by decide, fun ds => ⟨" BY ".toList ++ Text.join ", ".toList (ds.map Dimension.text), rfl, by simp, rfl⟩⟩

theorem opensWith_fill : OpensWith "fill".toList Fill.text :=
  ⟨by decide, by decide, fun f => ⟨_, f.text_eq, List.cons_ne_nil _ _, rfl⟩⟩

theorem opensWith_order : OpensWith "ORDER".toList Order.text :=
  ⟨by decide, by decide, fun o => ⟨_, o.text_eq, List.cons_ne_nil _ _, rfl⟩⟩

theorem opensWith_zone : OpensWith "tz".toList zoneText :=
  ⟨by decide, by decide, fun z => ⟨'(' :: Quoted.text '\'' z ++ [')'], rfl, List.cons_ne_nil _ _, rfl⟩⟩

theorem clauses_ends {s : Select} (hdimensions : ∀ d ∈ s.dimensions, d.Reads) :
    (clausesReader s.fields s.source s.condition).Ends ["GROUP".toList, "fill".toList, "ORDER".toList, "LIMIT".toList,
      "OFFSET".toList, "SLIMIT".toList, "SOFFSET".toList, "tz".toList] s.tailText s.settled
        ((∀ f ∈ s.fill, f.isLegible = true) ∧ True) := by
  rw [tailText_eq]
  refine .again_clause ?_ opensWith_dimensions (fun ds hds => ?_)
    fun _ h => h.refused (w := "GROUP".toList) (by decide) (by decide) (by decide)
  · refine .prints_clause ?_ opensWith_fill (fun f => f.prints.mono fun _ _ => trivial)
      (fun _ h => h.refused (w := "FILL".toList) (by decide) (by decide) (by decide)) fun fill? t r h => ?_
    · refine .again_clause ?_ opensWith_order (fun o _ => o.again_text.mono fun _ h => h.lacks rfl)
        fun _ h => h.refused (w := "ORDER".toList) (by decide) (by decide) (by decide)
      refine ends_count (ends_count (ends_count (ends_count ?_ (by decide) (by decide) (by decide)) (by decide) (by decide)
        (by decide)) (by decide) (by decide) (by decide)) (by decide) (by decide) (by decide)
      refine .again_clause ?_ opensWith_zone (fun z _ => (zoneReader_again z).mono fun _ _ => trivial)
        fun _ h => h.refused (w := "TZ".toList) (by decide) (by decide) (by decide)
      rw [getD_grouping]
      exact ⟨(again_pure _ _).prints, .inl rfl⟩
    · obtain ⟨_, _, -, h⟩ := bind_eq_found_iff.1 h
      obtain ⟨_, _, -, h⟩ := bind_eq_found_iff.1 h
      obtain ⟨_, _, -, h⟩ := bind_eq_found_iff.1 h
      obtain ⟨_, _, -, h⟩ := bind_eq_found_iff.1 h
      obtain ⟨_, _, -, h⟩ := bind_eq_found_iff.1 h
      obtain ⟨_, _, -, h⟩ := bind_eq_found_iff.1 h
      exact congrArg Select.fill (Outcome.found.inj h).1
  · obtain ⟨hne, rfl⟩ := mem_grouping.1 hds
    exact Dimension.clauseReader_again hne hdimensions

/-! ## What was read -/

/-- What holds of every dimension that is read holds of those of a statement. -/
theorem dimensions_of_read {P : Dimension → Prop} (hP : Dimension.reader.Takes fun _ d => P d) {q : Text} {s : Select}
    (h : read q = .ok s) : ∀ d ∈ s.dimensions, P d := by
  have hitem : (do blanks; Dimension.reader).Takes fun _ d => P d := takes_blanks.bind fun _ => hP
  have hlist : Dimension.clauseReader.Takes fun _ ds => ∀ d ∈ (some ds).getD [], P d :=
    (takes_word _).bind fun _ => takes_someBlanks.bind fun _ => (takes_word _).bind fun _ =>
      (hitem.separated (takes_comma.imp fun _ => trivial)).must _
  have hclause : (clauseReader Dimension.clauseReader).Takes fun _ ds? => ∀ d ∈ ds?.getD [], P d :=
    (takes_someBlanks.bind fun _ => hlist).optional (List.forall_mem_nil _)
  obtain ⟨_, _, _, _, _, _, -, -, -, -, hclauses, -⟩ := read_eq_ok_iff.1 h
  obtain ⟨-, ds?, _, _, _, _, _, _, _, hdimensions, hgrouping, -⟩ := clausesReader_eq_found_iff.1 hclauses
  rw [← hgrouping]
  obtain ⟨_, -, hall⟩ := hclause _ _ _ hdimensions
  exact hall

theorem reads_of_read {q : Text} {s : Select} (h : read q = .ok s) : s.Reads := by
  refine ⟨?_, ?_, fits_of_read h, dimensions_of_read Dimension.takes_reads h⟩
  · obtain ⟨_, _, _, _, _, _, -, hfields, -⟩ := read_eq_ok_iff.1 h
    obtain ⟨_, -, hprints⟩ := takes_fields_prints _ _ _ hfields
    exact hprints
  · obtain ⟨_, _, _, _, _, _, -, -, hsource, -⟩ := read_eq_ok_iff.1 h
    obtain ⟨_, _, -, hsource⟩ := bind_eq_found_iff.1 hsource
    obtain ⟨_, _, -, hsource⟩ := bind_eq_found_iff.1 hsource
    obtain ⟨_, _, -, hsource⟩ := bind_eq_found_iff.1 hsource
    exact Source.reads_of_found hsource

theorem Reads.withCondition {s : Select} (h : s.Reads) {condition : Option Condition}
    (hcondition : ∀ c ∈ condition, c.Fits Condition.Reads .disjunction) : { s with condition }.Reads :=
  ⟨h.fields, h.source, hcondition, h.dimensions⟩

/-! ## Whole statements -/

variable {s : Select}

theorem isLegible_iff : s.isLegible = true ↔
    (∀ f ∈ s.fields, f.expr.isLegible = true) ∧ ∀ f ∈ s.fill, f.isLegible = true := by
  unfold isLegible
  rw [Bool.and_eq_true, List.all_eq_true]
  cases s.fill <;> simp

/-- The condition, printed or not, is read again in front of the clauses. -/
theorem Reads.conditionReader_found (h : s.Reads) :
    optional conditionReader (s.whereText ++ s.tailText) = .found s.condition s.tailText := by
  have hcondition := h.condition
  unfold whereText
  cases hc : s.condition with
  | none => exact optional_refused ((clauses_ends h.dimensions).starts.refused (by decide) (by decide) (by decide))
  | some c => exact optional_found (Select.conditionReader_found (hcondition c hc) s.end_tailText)

theorem Reads.sourceReader_found (h : s.Reads) :
    sourceReader (' ' :: ("FROM".toList ++ ' ' :: (s.source.text ++ (s.whereText ++ s.tailText)))) =
      .found s.source (s.whereText ++ s.tailText) := by
  refine Select.sourceReader_found (b := [' ']) h.source rfl (by decide) ?_
  unfold whereText
  cases s.condition with
  | none => exact s.end_tailText.1.1.1
  | some c => rfl

/-- What is printed behind the first word. -/
def restText (s : Select) : Text := ' ' :: Text.join ", ".toList (s.fields.map Field.text) ++
  ' ' :: ("FROM".toList ++ ' ' :: (s.source.text ++ (s.whereText ++ s.tailText)))

theorem keywordReader_text (s : Select) : keywordReader s.text = .found () s.restText := by
  have hselect : "SELECT ".toList = "SELECT".toList ++ [' '] := by decide
  have htext : s.text = "SELECT".toList ++ s.restText := by
    rw [text_eq, hselect, List.append_assoc, List.append_assoc]
    rfl
  rw [htext]
  rfl

/-- **A legible statement is read again from its printed form**, up to the sign of zero. -/
theorem Reads.read_text (h : s.Reads) (hlegible : s.isLegible = true) : read s.text = .ok s.settled := by
  obtain ⟨hfields, hfill⟩ := isLegible_iff.1 hlegible
  have hclauses := (clauses_ends h.dimensions).prints.again ⟨hfill, trivial⟩ [] rfl
  rw [List.append_nil] at hclauses
  exact read_eq_ok_iff.2 ⟨_, _, _, _, _, _, s.keywordReader_text,
    h.fields.again hfields _ (Field.listEnd_from (b := [' ']) rfl (by decide) _), h.sourceReader_found,
    h.conditionReader_found, hclauses, rfl⟩

/-- A fill that is not legible is not a zero, so a statement with one equals any that equals it up to the sign of zero. -/
theorem eq_settled {s' : Select} (hsettled : s'.settled = s.settled) (hfill : ¬ ∀ f ∈ s.fill, f.isLegible = true) :
    s' = s.settled := by
  have hmap : s'.fill.map Fill.settled = s.fill.map Fill.settled := congrArg (fun s : Select => s.fill) hsettled
  have hfill' : s'.fill = s.fill.map Fill.settled := by
    cases hf : s.fill with
    | none =>
      rw [hf] at hmap
      exact Option.map_eq_none_iff.1 hmap
    | some f =>
      rw [hf] at hmap hfill
      obtain ⟨g, hg, hgf⟩ := Option.map_eq_some_iff.1 hmap
      rw [hg]
      exact congrArg some (Fill.eq_settled hgf (by simpa using hfill))
  calc s' = { s'.settled with fill := s'.fill } := rfl
    _ = s.settled := by rw [hsettled, hfill']; rfl

/-- **What is read from a printed statement is that statement only when it is legible.** -/
theorem Reads.isLegible_of_read (h : s.Reads) {s' : Select} (hread : read s.text = .ok s')
    (hsettled : s'.settled = s.settled) : s.isLegible = true := by
  obtain ⟨r₀, r₁, r₂, r₃, r₄, r₅, hkeyword, hfields, hsource, hcondition, hclauses, -⟩ := read_eq_ok_iff.1 hread
  have hparts : s'.settled.fields = s.settled.fields ∧ s'.settled.source = s.settled.source ∧
      s'.settled.condition = s.settled.condition := by
    rw [hsettled]
    exact ⟨rfl, rfl, rfl⟩
  obtain ⟨hf, hs, hc⟩ : s'.fields = s.fields ∧ s'.source = s.source ∧ s'.condition = s.condition := hparts
  rw [hf] at hfields hclauses
  rw [hs] at hsource hclauses
  rw [hc] at hcondition hclauses
  cases s.keywordReader_text.symm.trans hkeyword
  obtain ⟨rfl, hlegible⟩ := h.fields.rest_eq (Field.listEnd_from (b := [' ']) rfl (by decide) _) hfields
  cases h.sourceReader_found.symm.trans hsource
  cases h.conditionReader_found.symm.trans hcondition
  refine isLegible_iff.2 ⟨hlegible, ?_⟩
  by_contra hfill
  have hs' : s' = s.settled := eq_settled hsettled hfill
  rw [hs', ← List.append_nil s.tailText] at hclauses
  exact hfill ((clauses_ends h.dimensions).prints.only [] r₄ rfl hclauses).1

/-- **Legible statements with one text are one statement**, up to the sign of zero. -/
theorem Reads.settled_eq_of_text {s' : Select} (h : s.Reads) (h' : s'.Reads) (hlegible : s.isLegible = true)
    (hlegible' : s'.isLegible = true) (htext : s.text = s'.text) : s.settled = s'.settled := by
  have hread := h.read_text hlegible
  rw [htext, h'.read_text hlegible'] at hread
  exact (Except.ok.inj hread).symm

end Select

/-- The statement that a signature prints consists of what was read. -/
theorem Request.reads_timeless {context : Context} {q : Text} {r : Request} (hread : read context q = .ok r) :
    r.timeless.Reads := by
  have hcondition := fits_conditionWithoutTime hread
  obtain ⟨-, s, m, f, hselect, -, -, rfl⟩ := read_eq_ok_iff.1 hread
  exact (Select.reads_of_read hselect).withCondition hcondition

namespace Select

/-- **A statement that was read survives printing exactly when it is legible**, up to the sign of zero, and legible
statements with one text, and requests for such with one signature, are the same. -/
theorem survives_printing {q : Text} {s : Select} (h : read q = .ok s) :
    (s.isLegible = true → read s.text = .ok s.settled) ∧
      (∀ s', read s.text = .ok s' → s'.settled = s.settled → s.isLegible = true) ∧
        (s.isLegible = true → ∀ q' s', read q' = .ok s' → s'.isLegible = true → s.text = s'.text →
          s.settled = s'.settled) ∧
          (s.isLegible = true → ∀ context context' q' r r', Request.read context q = .ok r →
            Request.read context' q' = .ok r' → r'.statement.isLegible = true → r.signature = r'.signature →
              r.timeless.settled = r'.timeless.settled) := by
  have hreads := reads_of_read h
  refine ⟨hreads.read_text, fun s' => hreads.isLegible_of_read, fun hlegible q' s' h' hlegible' => ?_,
    fun hlegible context context' q' r r' hr hr' hlegible' => ?_⟩
  · exact hreads.settled_eq_of_text (reads_of_read h') hlegible hlegible'
  · obtain ⟨-, s', _, _, hselect, -, -, hr_eq⟩ := Request.read_eq_ok_iff.1 hr
    cases h.symm.trans hselect
    have hstatement : r.timeless.isLegible = true := by rw [hr_eq]; exact hlegible
    exact (Request.reads_timeless hr).settled_eq_of_text (Request.reads_timeless hr') hstatement hlegible'

/-! ## A statement printed and read -/

namespace Sample

/-- Means by host, with a fill whose sign is lost. -/
def statement : Select where
  fields := [⟨.call "mean".toList [.name "v".toList none], some "top".toList⟩, ⟨.literal (.integer 2), none⟩]
  source := ⟨some "db".toList, none, .name "cpu".toList⟩
  condition := some (.joined (.comparison ⟨"time".toList, .gt, ⟨"5".toList, .literal (.integer 5)⟩⟩) .and
    (.comparison ⟨"host".toList, .eq, ⟨"'a'".toList, .literal (.string "a".toList)⟩⟩))
  dimensions := [.time ⟨300000000000⟩ (some ⟨-10000000000⟩), .tag "host".toList]
  fill := some (.value ⟨0x8000000000000000⟩)
  order := none
  limit := some 3
  offset := none
  seriesLimit := none
  seriesOffset := none
  zone := some "UTC".toList

theorem read_statement : read ("select MEAN( \"v\" ) as top , 2 from db..cpu where time > 5 and host='a' ".toList ++
    "group by time( 300s ,-10s), \"host\" fill(-0.0) limit 03 tz('UTC')".toList) = .ok statement :=
  Outcome.eq_ok_of_toOption (by decide +kernel)

end Sample

theorem survives_printing_sample : Sample.statement.text =
      ("SELECT mean(v) AS top, 2 FROM db..cpu WHERE time > 5 AND host = 'a' ".toList ++
        "GROUP BY time(5m, -10s), host fill(-0) LIMIT 3 tz('UTC')".toList) ∧
    read Sample.statement.text = .ok { Sample.statement with fill := some (.value Binary64.zero) } :=
  ⟨by decide +kernel, (survives_printing Sample.read_statement).1 (by decide +kernel)⟩

/-! ## Statements that are not legible -/

namespace Slip

/-- One expression, with a fill or without. -/
def select (e : FieldExpr) (fill : Option Fill) : Select where
  fields := [⟨e, none⟩]
  source := ⟨none, none, .name "m".toList⟩
  condition := none
  dimensions := []
  fill := fill
  order := none
  limit := none
  offset := none
  seriesLimit := none
  seriesOffset := none
  zone := none

def named : Select := select (.name "true".toList none) none

def truth : Select := select (.literal (.boolean true)) none

/-- A fill with `10 ^ 19`. -/
def filled : Select := select (.name "v".toList none) (some (.value ⟨0x43E158E460913D00⟩))

def infinite : Select := select (.literal (.float ⟨0x7FF0000000000000⟩)) none

end Slip

/-- A name is read as a truth value, a fill not at all, and an infinite literal as a name. -/
theorem not_survives_printing :
    (read "SELECT \"true\" FROM m".toList = .ok Slip.named ∧ read Slip.named.text = .ok Slip.truth ∧
      Slip.named.text = Slip.truth.text ∧ Slip.named.settled ≠ Slip.truth.settled) ∧
    (read "SELECT v FROM m fill(1e19)".toList = .ok Slip.filled ∧ (read Slip.filled.text).toOption = none) ∧
    read "SELECT 1e999 FROM m".toList = .ok Slip.infinite ∧
      read Slip.infinite.text = .ok (Slip.select (.name "inf".toList none) none) :=
  ⟨⟨Outcome.eq_ok_of_toOption (by decide +kernel), Outcome.eq_ok_of_toOption (by decide +kernel), by decide +kernel,
      by decide +kernel⟩,
    ⟨Outcome.eq_ok_of_toOption (by decide +kernel), by decide +kernel⟩,
    Outcome.eq_ok_of_toOption (by decide +kernel), Outcome.eq_ok_of_toOption (by decide +kernel)⟩

end Select
end SeriesCache
