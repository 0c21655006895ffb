import SeriesCache.Proofs.Query.Operand
import SeriesCache.Proofs.Query.Shape
import SeriesCache.Query.SelectReader
/-!
# The printed form of a statement

A statement is read part by part (`Select.read_eq_ok_iff`).  The fields and the condition of one that was read are
passed over in its printed form (`Scan.printed_of_read`), so that the walk over the whole text stops where the source
and the dimensions start.
-/
namespace SeriesCache

open Reader Scan

variable {w : Text}

/-! ## Printed numbers -/

namespace Scan

theorem plain_append {t u : Text} (ht : t.all isPlain = true) (hu : u.all isPlain = true) :
    (t ++ u).all isPlain = true := by
  rw [List.all_append, ht, hu]
  rfl

theorem plain_decimal (n : Nat) : (Decimal.text n).all isPlain = true := List.all_eq_true.2 fun _ hc =>
  isPlain_of_isSolid (isSolid_of_isDigit (Nat.isDigit_of_mem_toDigits (by decide) (by decide) hc))

theorem plain_int : ∀ n : Int, (Decimal.intText n).all isPlain = true
  | .ofNat n => plain_decimal n
  | .negSucc n => plain_append (t := ['-']) (by decide) (plain_decimal (n + 1))

theorem plain_zeros (n : Nat) : (Layout.zeros n).all isPlain = true := List.all_eq_true.2 fun c hc => by
  rw [List.eq_of_mem_replicate hc]
  decide

theorem plain_withPoint {digits : Text} (h : digits.all isPlain = true) (e : Int) :
    (Layout.plain.withPoint digits e).all isPlain = true := by
  have hall := List.all_eq_true.1 h
  rw [Layout.withPoint]
  split
  · exact plain_append (plain_append h (plain_zeros _)) rfl
  · simp only
    split
    · refine plain_append (List.all_eq_true.2 fun c hc => hall c (List.mem_of_mem_take hc)) ?_
      exact plain_append (t := ['.']) (by decide) (List.all_eq_true.2 fun c hc => hall c (List.mem_of_mem_drop hc))
    · exact plain_append (t := ['0', '.'] ++ Layout.zeros _) (plain_append (by decide) (plain_zeros _)) h

theorem plain_sign (negative : Bool) : (if negative then ['-'] else [] : Text).all isPlain = true := by
  cases negative <;> decide

theorem plain_float (x : Binary64) : (Literal.floatText x).all isPlain = true := by
  rw [Literal.floatText]
  split
  · exact plain_append (plain_append (plain_sign _) (plain_decimal _)) (by decide)
  · rw [Layout.text]
    split
    · decide
    · split
      · cases x.isNegative <;> decide
      · refine plain_append (plain_sign _) ?_
        rw [Layout.numeral]
        simp only [Layout.plain, Bool.or_true, if_true]
        exact plain_withPoint (plain_decimal _) _

theorem plain_duration (d : Duration) : d.text.all isPlain = true := by
  have hunits : Duration.printedUnits.all (fun u => u.1.all isPlain) = true := by decide
  rw [Duration.text]
  split
  · decide
  · split
    · rename_i hfind
      exact plain_append (plain_int _) (List.all_eq_true.1 hunits _ (List.mem_of_find?_eq_some hfind))
    · exact plain_append (plain_int _) (by decide)

/-! ## Printed fields -/

theorem takes_printedLiteral (hw : IsKeyword w) : Literal.reader.Takes fun _ l => Skips w l.text := by
  have hduration : Duration.reader.Takes fun _ d => Skips w (Literal.duration d).text := fun s d rest hs => by
    obtain ⟨t, ht, -⟩ := (Takes.convert (takes_durationSpelling.imp fun _ _ _ => trivial)) s d rest hs
    exact ⟨t, ht, skips_plain hw (plain_duration d)⟩
  have hnumeric : Numeric.reader.Takes fun _ n => Skips w (Numeric.toLiteral n).text := fun s n rest hs => by
    obtain ⟨t, ht, -⟩ := (Takes.convert (takes_numericSpelling.imp fun _ _ _ => trivial)) s n rest hs
    refine ⟨t, ht, ?_⟩
    cases n with
    | integer n => exact skips_plain hw (plain_int n.toInt)
    | float x => exact skips_plain hw (plain_float x)
  have hstring : (Quoted.reader '\'').Takes fun _ s => Skips w (Literal.string s).text :=
    (takes_quoted (w := w) (.inr rfl)).imp fun {_ s} _ => skips_quotedText (.inr rfl) s
  have hregex : Regex.reader.Takes fun _ r => Skips w (Literal.regex r).text :=
    (takes_regex (w := w)).imp fun ⟨ht, hwhole⟩ => by
      rw [Literal.text, ← ht]
      exact hwhole.skips
  have hboolean : Literal.booleanReader.Takes fun _ b => Skips w (Literal.boolean b).text :=
    (takes_boolean hw).imp fun {_ b} _ => skips_plain hw (by cases b <;> decide)
  exact Takes.orElse (.map hduration) (.orElse (.map hnumeric) (.orElse (.map hstring)
    (.orElse (.map hregex) (.map hboolean))))

theorem word_of_typeReader {s rest : Text} {type : FieldType} (h : FieldExpr.typeReader s = .found type rest) :
    word type.text s = .found () rest := by
  rw [FieldExpr.typeReader] at h
  split at h
  · rename_i hfind
    cases h
    obtain ⟨u, -, hu⟩ := List.exists_of_findSome?_eq_some hfind
    split at hu
    · rename_i hword
      cases hu
      exact hword
    · cases hu
  · cases h

theorem takes_type (hw : IsKeyword w) : FieldExpr.typeReader.Takes fun _ t => Skips w t.text := fun s t rest hs => by
  obtain ⟨v, hv, -⟩ := takes_word t.text s () rest (word_of_typeReader hs)
  exact ⟨v, hv, skips_unreserved hw (by cases t <;> decide) (by cases t <;> decide)⟩

theorem skips_argsText : ∀ {args : List FieldExpr}, (∀ a ∈ args, Skips w a.text) → Skips w (FieldExpr.argsText args)
  | [], _ => skips_nil w
  | [a], h => h a List.mem_cons_self
  | a :: b :: args, h => by
    obtain ⟨ha, hargs⟩ := List.forall_mem_cons.1 h
    exact ha.append_cons (by decide) ((skips_argsText hargs).cons (by decide))

theorem skips_lower (hw : IsKeyword w) {f : Text} (h : Name.isBare f = true) : Skips w (Text.lower f) := by
  obtain ⟨-, hparts, hreserved⟩ := Name.isBare_iff.1 h
  refine skips_unreserved hw ?_ ?_
  · rw [Text.all_isWordPart_lower, hparts]
  · rw [Name.isReserved_congr (Text.lower_lower f), hreserved]

theorem takes_fieldCall (hw : IsKeyword w) {arg : Reader FieldExpr} (harg : arg.Takes fun _ e => Skips w e.text) :
    (FieldExpr.callReader arg).Takes fun _ e => Skips w e.text := by
  have hitem : (do blanks; arg).Takes fun _ e => Skips w e.text := takes_blanks.bind fun _ => harg
  have hargs : (separated comma (do blanks; arg) <|> pure []).Takes fun _ args => ∀ a ∈ args, Skips w a.text :=
    (Takes.separated hitem (takes_comma.imp fun _ => trivial)).orElse (takes_pure (List.forall_mem_nil _))
  have hclose : (do blanks; char ')').Takes fun _ _ => True := takes_blanks.bind fun _ => (takes_char ')').imp fun _ => trivial
  refine takes_bare.bind fun hf => takes_blanks.bind fun _ => (takes_char '(').bind fun _ => hargs.bind fun hargs =>
    (hclose.must _).bind fun _ => takes_pure ?_
  exact ((skips_lower hw hf.2).append_cons (by decide) (skips_argsText hargs)).append_cons (by decide) (skips_nil w)

theorem takes_printedName (hw : IsKeyword w) : Name.reader.Takes fun _ n => Skips w (Name.text n) :=
  (takes_name hw).imp fun {_ n} _ => skips_name hw n

theorem takes_fieldName (hw : IsKeyword w) : FieldExpr.nameReader.Takes fun _ e => Skips w e.text := by
  have htype : (do exactly "::".toList; must .noFieldType FieldExpr.typeReader).Takes fun _ t => Skips w t.text :=
    (takes_exactly _).bind fun _ => (takes_type hw).must _
  refine (takes_printedName hw).bind fun {_ n} hn => Takes.bind (P := fun _ t => ∀ t', t = some t' → Skips w t'.text)
    (htype.imp (fun ht t' h => by cases h; exact ht) |>.optional fun _ h => by cases h) fun {_ t} ht => takes_pure ?_
  cases t with
  | none => exact hn
  | some t => exact hn.append_cons (by decide) ((ht t rfl).cons (by decide))

theorem takes_fieldExpr (hw : IsKeyword w) : ∀ depth,
    (FieldExpr.readerWithin depth).Takes fun _ e => Skips w e.text
  | 0 => takes_refuse
  | depth + 1 => by
    have hwildcard : (do char '*'; return .wildcard : Reader FieldExpr).Takes fun _ e => Skips w e.text :=
      (takes_char '*').bind fun _ => takes_pure ((skips_nil w).cons (by decide))
    exact Takes.orElse (takes_fieldCall hw (takes_fieldExpr hw depth))
      (.orElse hwildcard (.orElse (.map (takes_printedLiteral hw)) (takes_fieldName hw)))

theorem takes_field (hw : IsKeyword w) (has : Text.sameWord w "AS".toList = false) :
    Field.reader.Takes fun _ f => Skips w f.text := by
  have hexpr : FieldExpr.reader.Takes fun _ e => Skips w e.text := fun s => takes_fieldExpr hw (s.length + 1) s
  have hlabel : (do someBlanks; word "AS".toList; must .noAlias Name.reader).Takes fun _ n => Skips w (Name.text n) :=
    takes_someBlanks.bind fun _ => (takes_word _).bind fun _ => (takes_printedName hw).must _
  refine takes_blanks.bind fun _ => hexpr.bind fun he => Takes.bind (P := fun _ n => ∀ n', n = some n' → Skips w (Name.text n'))
    (hlabel.imp (fun ht t' h => by cases h; exact ht) |>.optional fun _ h => by cases h) fun {_ n} hn => takes_pure ?_
  cases n with
  | none =>
    rw [Field.text, List.append_nil]
    exact he
  | some n =>
    exact he.append_cons (by decide) ((skips_word (by decide) has).append_cons (by decide) (hn n rfl))

/-! ## Printed conditions -/

/-- The operands of the condition are passed over. -/
def Operands (w : Text) (c : Condition) : Prop := ∀ x ∈ c.comparisons, Skips w x.operand.text

theorem operands_without (name : Text) {c d : Condition} (h : c.without name = some d) (hc : Operands w c) :
    Operands w d := by
  have hcomparisons := Condition.comparisons_without name c
  rw [h] at hcomparisons
  intro x hx
  rw [show d.comparisons = _ from hcomparisons] at hx
  exact hc x (List.mem_filter.1 hx).1

theorem skips_condition (hw : IsKeyword w) (hand : Text.sameWord w "AND".toList = false)
    (hor : Text.sameWord w "OR".toList = false) : ∀ {c : Condition}, Operands w c → Skips w c.text
  | .comparison x, hc => by
    have hoperator : x.operator.text.all isMark = true := by cases x.operator <;> decide
    have hname := (skips_name hw x.name).append_cons (c := ' ') (by decide) ((skips_nil w).marks hoperator)
    rw [List.append_nil] at hname
    exact hname.append_cons (by decide) (hc x List.mem_cons_self)
  | .joined a op b, hc => by
    obtain ⟨ha, hb⟩ := List.forall_mem_append.1 hc
    have hword : Skips w op.text := by
      cases op with
      | and => exact skips_word (by decide) hand
      | or => exact skips_word (by decide) hor
    exact ((skips_condition hw hand hor ha).append_cons (by decide) hword).append_cons (by decide)
      (skips_condition hw hand hor hb)
  | .group a, hc =>
    (((skips_condition hw hand hor (c := a) hc).append_cons (by decide) (skips_nil w)).cons (by decide))

theorem takes_operator : Operator.reader.Takes fun _ _ => True := fun s op rest hs => by
  rw [Operator.reader] at hs
  split at hs
  · rename_i hfind
    cases hs
    obtain ⟨u, -, hu⟩ := List.exists_of_findSome?_eq_some hfind
    obtain ⟨rest, hdrop, heq⟩ := Option.map_eq_some_iff.1 hu
    cases heq
    exact ⟨u.1, Text.dropPrefix?_eq_some_iff.1 hdrop, trivial⟩
  · cases hs

theorem takes_comparison (hw : IsKeyword w) :
    Condition.comparisonReader.Takes fun _ x => Skips w x.operand.text :=
  (takes_name hw).bind fun _ => takes_blanks.bind fun _ => takes_operator.bind fun _ =>
    Takes.bind (.must _ (takes_blanks.bind fun _ => takes_operand hw)) fun h => takes_pure h

theorem takes_condition (hw : IsKeyword w) : Condition.reader.Takes fun _ c => Operands w c :=
  (Condition.reader_fits (takes_comparison hw)).imp Condition.Fits.forall_comparisons

end Scan

/-! ## Statements -/

namespace Select

def whereText (s : Select) : Text := clause (fun c => "WHERE ".toList ++ Condition.text c) s.condition

theorem text_eq (s : Select) : s.text = "SELECT ".toList ++ Text.join ", ".toList (s.fields.map Field.text) ++
    ' ' :: ("FROM".toList ++ ' ' :: (s.source.text ++ (s.whereText ++ s.tailText))) := by
  have hfrom : " FROM ".toList = ' ' :: ("FROM".toList ++ [' ']) := by decide
  unfold text whereText
  simp only [hfrom, List.append_assoc, List.cons_append, List.nil_append]

def fieldsReader : Reader (List Field) := do
  someBlanks
  separated comma Field.reader

def sourceReader : Reader Source := do
  someBlanks; word "FROM".toList; blanks
  Source.reader

def conditionReader : Reader Condition := do
  someBlanks; word "WHERE".toList; blanks
  must .noCondition Condition.reader

/-- The clauses behind the condition. -/
def clausesReader (fields : List Field) (source : Source) (condition : Option Condition) : Reader Select := do
  let dimensions ← clauseReader Dimension.clauseReader
  let fill ← clauseReader Fill.reader
  let order ← clauseReader Order.reader
  let limit ← clauseReader (countReader "LIMIT" .noLimit)
  let offset ← clauseReader (countReader "OFFSET" .noOffset)
  let seriesLimit ← clauseReader (countReader "SLIMIT" .noSeriesLimit)
  let seriesOffset ← clauseReader (countReader "SOFFSET" .noSeriesOffset)
  let zone ← clauseReader zoneReader
  return { fields, source, condition, dimensions := dimensions.getD [], fill, order, limit,
           offset, seriesLimit, seriesOffset, zone }

theorem reader_eq : reader = (do
    keywordReader
    let fields ← must .noField fieldsReader
    let source ← must .noSource sourceReader
    let condition ← optional conditionReader
    clausesReader fields source condition) := rfl

/-- The clauses are read one after another. -/
theorem clausesReader_eq_found_iff {fields : List Field} {source : Source} {condition : Option Condition} {s : Select}
    {t rest : Text} : clausesReader fields source condition t = .found s rest ↔
      (s.fields = fields ∧ s.source = source ∧ s.condition = condition) ∧ ∃ dimensions r₀ r₁ r₂ r₃ r₄ r₅ r₆,
        clauseReader Dimension.clauseReader t = .found dimensions r₀ ∧ dimensions.getD [] = s.dimensions ∧
          clauseReader Fill.reader r₀ = .found s.fill r₁ ∧ clauseReader Order.reader r₁ = .found s.order r₂ ∧
            clauseReader (countReader "LIMIT" .noLimit) r₂ = .found s.limit r₃ ∧
              clauseReader (countReader "OFFSET" .noOffset) r₃ = .found s.offset r₄ ∧
                clauseReader (countReader "SLIMIT" .noSeriesLimit) r₄ = .found s.seriesLimit r₅ ∧
                  clauseReader (countReader "SOFFSET" .noSeriesOffset) r₅ = .found s.seriesOffset r₆ ∧
                    clauseReader zoneReader r₆ = .found s.zone rest := by
  constructor
  · intro h
    obtain ⟨dimensions, r₀, hdimensions, h⟩ := bind_eq_found_iff.1 h
    obtain ⟨fill, r₁, hfill, h⟩ := bind_eq_found_iff.1 h
    obtain ⟨order, r₂, horder, h⟩ := bind_eq_found_iff.1 h
    obtain ⟨limit, r₃, hlimit, h⟩ := bind_eq_found_iff.1 h
    obtain ⟨offset, r₄, hoffset, h⟩ := bind_eq_found_iff.1 h
    obtain ⟨seriesLimit, r₅, hseriesLimit, h⟩ := bind_eq_found_iff.1 h
    obtain ⟨seriesOffset, r₆, hseriesOffset, h⟩ := bind_eq_found_iff.1 h
    obtain ⟨zone, _, hzone, h⟩ := bind_eq_found_iff.1 h
    cases h
    exact ⟨⟨rfl, rfl, rfl⟩, dimensions, r₀, r₁, r₂, r₃, r₄, r₅, r₆, hdimensions, rfl, hfill, horder, hlimit, hoffset,
      hseriesLimit, hseriesOffset, hzone⟩
  · rintro ⟨⟨rfl, rfl, rfl⟩, dimensions, r₀, r₁, r₂, r₃, r₄, r₅, r₆, hdimensions, hgrouping, hfill, horder, hlimit, hoffset,
      hseriesLimit, hseriesOffset, hzone⟩
    have hfound : clausesReader s.fields s.source s.condition t =
        .found { s with dimensions := dimensions.getD [] } rest :=
      (bind_found hdimensions).trans ((bind_found hfill).trans ((bind_found horder).trans ((bind_found hlimit).trans
        ((bind_found hoffset).trans ((bind_found hseriesLimit).trans ((bind_found hseriesOffset).trans
          (bind_found hzone)))))))
    rw [hgrouping] at hfound
    exact hfound

/-- The clauses behind a condition do not depend on it. -/
theorem clausesReader_found {fields : List Field} {source : Source} {condition : Option Condition} {s : Select}
    {t rest : Text} (h : clausesReader fields source condition t = .found s rest) :
    s.fields = fields ∧ s.source = source ∧ s.condition = condition ∧ ∀ condition',
      clausesReader fields source condition' t = .found { s with condition := condition' } rest := by
  obtain ⟨⟨hfields, hsource, hcondition⟩, hclauses⟩ := clausesReader_eq_found_iff.1 h
  exact ⟨hfields, hsource, hcondition, fun _ => clausesReader_eq_found_iff.2 ⟨⟨hfields, hsource, rfl⟩, hclauses⟩⟩

/-- **A statement is read part by part**, with nothing but the end of the text behind it. -/
theorem read_eq_ok_iff {q : Text} {s : Select} : read q = .ok s ↔ ∃ r₀ r₁ r₂ r₃ r₄ r₅,
    keywordReader q = .found () r₀ ∧ fieldsReader r₀ = .found s.fields r₁ ∧ sourceReader r₁ = .found s.source r₂ ∧
      optional conditionReader r₂ = .found s.condition r₃ ∧
        clausesReader s.fields s.source s.condition r₃ = .found s r₄ ∧ endReader r₄ = .found () r₅ := by
  have hread : read q = .ok s ↔
      ∃ rest, (do let s ← reader; must .trailingText endReader; return s : Reader Select) q = .found s rest := by
    unfold read
    simp only
    split <;> rename_i h <;> rw [h] <;> simp
  rw [hread, reader_eq]
  constructor
  · rintro ⟨r₅, h⟩
    obtain ⟨s', r₄, h, hend⟩ := bind_eq_found_iff.1 h
    obtain ⟨_, _, hend, hs⟩ := bind_eq_found_iff.1 hend
    cases hs
    obtain ⟨_, r₀, hkeyword, h⟩ := bind_eq_found_iff.1 h
    obtain ⟨fields, r₁, hfields, h⟩ := bind_eq_found_iff.1 h
    obtain ⟨source, r₂, hsource, h⟩ := bind_eq_found_iff.1 h
    obtain ⟨condition, r₃, hcondition, h⟩ := bind_eq_found_iff.1 h
    obtain ⟨rfl, rfl, rfl, -⟩ := clausesReader_found h
    exact ⟨r₀, r₁, r₂, r₃, r₄, r₅, hkeyword, must_eq_found_iff.1 hfields, must_eq_found_iff.1 hsource, hcondition, h,
      must_eq_found_iff.1 hend⟩
  · rintro ⟨r₀, r₁, r₂, r₃, r₄, r₅, hkeyword, hfields, hsource, hcondition, hclauses, hend⟩
    exact ⟨r₅, (bind_found ((bind_found hkeyword).trans ((bind_found (must_found hfields)).trans ((bind_found
      (must_found hsource)).trans ((bind_found hcondition).trans hclauses))))).trans (bind_found (must_found hend))⟩

/-- What holds of every field that is read holds of those of a statement. -/
theorem fields_of_read {P : Field → Prop} (hP : Field.reader.Takes fun _ f => P f) {q : Text} {s : Select}
    (h : read q = .ok s) : ∀ f ∈ s.fields, P f := by
  have hfields : fieldsReader.Takes fun _ fields => ∀ f ∈ fields, P f :=
    takes_someBlanks.bind fun _ => hP.separated (takes_comma.imp fun _ => trivial)
  obtain ⟨_, _, _, _, _, _, -, hfound, -⟩ := read_eq_ok_iff.1 h
  obtain ⟨_, -, hall⟩ := hfields _ _ _ hfound
  exact hall

/-- What holds of every condition that is read holds of that of a statement. -/
theorem condition_of_read {P : Condition → Prop} (hP : Condition.reader.Takes fun _ c => P c) {q : Text} {s : Select}
    (h : read q = .ok s) : ∀ c ∈ s.condition, P c := by
  have hcondition : (optional conditionReader).Takes fun _ condition => ∀ c ∈ condition, P c :=
    Takes.optional (takes_someBlanks.bind fun _ => (takes_word _).bind fun _ => takes_blanks.bind fun _ =>
      (hP.must _).imp fun hc c h => by cases h; exact hc) fun _ h => by cases h
  obtain ⟨_, _, _, _, _, _, -, -, -, hfound, -⟩ := read_eq_ok_iff.1 h
  obtain ⟨_, -, hall⟩ := hcondition _ _ _ hfound
  exact hall

end Select

namespace Scan

theorem skips_join : ∀ {texts : List Text}, (∀ t ∈ texts, Skips w t) →
    Skips w (Text.join ", ".toList texts)
  | [], _ => skips_nil w
  | [t], h => h t List.mem_cons_self
  | t :: u :: texts, h => by
    obtain ⟨ht, htexts⟩ := List.forall_mem_cons.1 h
    rw [Text.join, List.append_assoc]
    exact ht.append_cons (by decide) ((skips_join htexts).cons (by decide))

/-- What is printed in front of the FROM, and of the GROUP BY, is passed over. -/
structure Printed (s : Select) : Prop where
  fields : ∀ f ∈ s.fields, Skips "FROM".toList f.text
  operands : ∀ c, s.condition = some c → Operands "GROUP".toList c

theorem printed_of_read {q : Text} {s : Select} (h : Select.read q = .ok s) : Printed s where
  fields := Select.fields_of_read (takes_field isKeyword_from (by decide)) h
  operands := Select.condition_of_read (takes_condition isKeyword_group) h

end Scan

end SeriesCache
