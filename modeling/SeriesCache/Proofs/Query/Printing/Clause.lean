import SeriesCache.Proofs.Query.Again.Condition
import SeriesCache.Proofs.Query.Printing.Literal
/-!
# Reading printed clauses

Each clause starts with a word of its own, so a printed clause ends where the next one starts (`Clauses`), and one that
is not printed is refused there (`Clauses.refused`).  All clauses are read again from their printed form, except for a
fill with a number that is `2 ^ 63` or more (`Fill.prints`): it is printed without a point, as an integer that does not
fit.
-/
namespace SeriesCache

open Reader
open Text (Lacks)

variable {α β : Type} {t rest : Text} {a : α} {L : Prop}

/-! ## Ends of clauses -/

/-- The end of the text, or a clause that starts with one of the words. -/
def Clauses (words : List Text) (rest : Text) : Prop :=
  rest = [] ∨ ∃ w ∈ words, ∃ r, rest = ' ' :: (w ++ r) ∧ Text.startsWith Text.isWordStart w = true ∧
    w.all Text.isWordPart = true ∧ Lacks Text.isWordPart r

namespace Clauses

variable {p : Char → Bool} {w : Text} {words : List Text}

theorem lacks (h : Clauses words rest) (hp : p ' ' = false) : Lacks p rest := by
  rcases h with rfl | ⟨_, -, _, rfl, -⟩
  · rfl
  · exact hp

theorem dropBlanks_word {v : Text} (hstart : Text.startsWith Text.isWordStart v = true) (r : Text) :
    Text.dropBlanks (' ' :: (v ++ r)) = v ++ r := by
  have hblank : Lacks Text.isBlank (v ++ r) := Text.lacks_of_startsWith (Text.startsWith_append hstart r) fun _ hc =>
    Text.isBlank_of_isWordPart (Text.isWordPart_of_isWordStart hc)
  exact Text.dropBlanks_append (t := [' ']) rfl hblank

theorem lacks_dropBlanks (h : Clauses words rest) (hp : ∀ c, Text.isWordStart c = true → p c = false) :
    Lacks p (Text.dropBlanks rest) := by
  rcases h with rfl | ⟨v, -, r, rfl, hstart, -⟩
  · rfl
  · rw [dropBlanks_word hstart]
    exact Text.lacks_of_startsWith (Text.startsWith_append hstart r) hp

/-- A clause that starts with another word is refused. -/
theorem refused {q : Reader β} (h : Clauses words rest) (hw : w.all Text.isWordPart = true) (hne : w ≠ [])
    (hwords : ∀ v ∈ words, Text.sameWord w v = false) : (do someBlanks; word w; q : Reader β) rest = .refused := by
  refine someBlanks_bind_refused (bind_refused ?_)
  rcases h with rfl | ⟨v, hv, r, rfl, hstart, hparts, hr⟩
  · cases w with
    | nil => exact absurd rfl hne
    | cons c w => rfl
  · rw [dropBlanks_word hstart, word_append hw hparts hr, hwords v hv]
    rfl

/-- A clause stands in front of what may follow it. -/
theorem clause {text : α → Text} (h : Clauses words rest) (hstart : Text.startsWith Text.isWordStart w = true)
    (hparts : w.all Text.isWordPart = true)
    (htext : ∀ a, ∃ r, text a = w ++ r ∧ r ≠ [] ∧ Lacks Text.isWordPart r) (a? : Option α) :
    Clauses (w :: words) (Select.clause text a? ++ rest) := by
  cases a? with
  | none =>
    rcases h with rfl | ⟨v, hv, h⟩
    · exact .inl rfl
    · exact .inr ⟨v, List.mem_cons_of_mem w hv, h⟩
  | some a =>
    obtain ⟨r, htext, hne, hr⟩ := htext a
    refine .inr ⟨w, List.mem_cons_self, r ++ rest, ?_, hstart, hparts, hr.append hne rest⟩
    rw [Select.clause, htext, List.cons_append, List.append_assoc]

end Clauses

/-! ## Optional clauses -/

namespace Select

variable {p : Reader α} {F : Text → Prop} {text : α → Text} {a? : Option α}

/-- A clause, printed or not, is read again when the reader refuses what follows it. -/
theorem clause_prints (settle : α → α) {C : α → Prop} (hp : ∀ a ∈ a?, p.Prints F (text a) (settle a) (C a))
    (hstart : ∀ a ∈ a?, text a ≠ [] ∧ Lacks Text.isBlank (text a))
    (hrefused : ∀ rest, F rest → (do someBlanks; p : Reader α) rest = .refused) :
    (clauseReader p).Prints F (clause text a?) (a?.map settle) (∀ a ∈ a?, C a) := by
  cases a? with
  | none => exact (again_optional_none hrefused).prints.imp (by simp)
  | some a =>
    obtain ⟨hne, hblank⟩ := hstart a rfl
    have hspace : someBlanks.Again (Lacks Text.isBlank) [' '] () := again_someBlanks rfl (by decide)
    exact (hspace.prints_bind (hp a rfl) fun rest _ => hblank.append hne rest).optional.imp (by simp)

theorem again_clause (hp : ∀ a ∈ a?, p.Again F (text a) a) (hstart : ∀ a ∈ a?, text a ≠ [] ∧ Lacks Text.isBlank (text a))
    (hrefused : ∀ rest, F rest → (do someBlanks; p : Reader α) rest = .refused) :
    (clauseReader p).Again F (clause text a?) a? := by
  have hprints := clause_prints id (fun a ha => (hp a ha).prints) hstart hrefused
  rw [Option.map_id_apply] at hprints
  exact hprints.again fun _ _ => trivial

end Select

/-! ## Dimensions -/

namespace Dimension

/-- A dimension that is made of what was read. -/
def Reads : Dimension → Prop
  | time i o => i.nanos ≠ Int64.minValue ∧ ∀ j ∈ o, j.nanos ≠ Int64.minValue
  | regex r => Regex.reader.Again (fun _ => True) (Regex.text r) r
  | tag _ => True
  | wildcard => True

def offsetReader : Reader Duration := do
  blanks; char ','; blanks
  Duration.reader

theorem takes_reads : reader.Takes fun _ d => d.Reads := by
  have hoffset : offsetReader.Takes fun _ j => ∀ i ∈ some j, i.nanos ≠ Int64.minValue :=
    takes_blanks.bind fun _ => (takes_char ',').bind fun _ => takes_blanks.bind fun _ =>
      Duration.takes_opposite.imp fun h i hi => by cases hi; exact h
  have hinside : (do
      blanks
      let i ← Duration.reader
      let o ← optional offsetReader
      blanks; char ')'
      return time i o : Reader Dimension).Takes fun _ d => d.Reads :=
    takes_blanks.bind fun _ => Duration.takes_opposite.bind fun hi => (hoffset.optional fun _ h => by cases h).bind
      fun ho => takes_blanks.bind fun _ => (takes_char ')').bind fun _ => takes_pure ⟨hi, ho⟩
  have htime : timeReader.Takes fun _ d => d.Reads := (takes_word _).bind fun _ => takes_blanks.bind fun _ =>
    (takes_char '(').bind fun _ => hinside.must _
  have hname : Name.reader.Takes fun _ n => (tag n).Reads := (Scan.takes_name Scan.isKeyword_from).imp fun _ => trivial
  exact htime.orElse (.orElse ((takes_char '*').bind fun _ => takes_pure trivial)
    (.orElse (.map Regex.takes_again_text) (.map hname)))

/-- What is printed of the offset of an interval. -/
def offsetText : Option Duration → Text
  | none => []
  | some o => ',' :: ' ' :: o.text

theorem text_time_eq (i : Duration) (o : Option Duration) :
    (time i o).text = "time".toList ++ '(' :: (i.text ++ (offsetText o ++ [')'])) := by
  cases o with
  | none => rfl
  | some o =>
    unfold text offsetText
    simp only [List.append_assoc, List.cons_append]
    rfl

theorem again_offset {o : Option Duration} (ho : ∀ j ∈ o, j.nanos ≠ Int64.minValue) :
    (optional offsetReader).Again (fun rest => ∃ r, rest = ')' :: r) (offsetText o) o := by
  cases o with
  | none =>
    refine again_optional_none ?_
    rintro _ ⟨r, rfl⟩
    rfl
  | some o =>
    have hduration : Duration.reader.Again (fun rest => ∃ r, rest = ')' :: r) o.text o :=
      (Duration.again_text (ho o rfl)).mono (by rintro _ ⟨r, rfl⟩; rfl)
    obtain ⟨hne, hblank⟩ := Duration.text_start (ho o rfl)
    have hspace := (again_blanks (t := [' ']) rfl).seq hduration fun rest _ => hblank.append hne rest
    have hcomma := (again_char ',' fun _ => True).seq hspace fun _ _ => trivial
    exact ((again_blanks (t := []) rfl).seq hcomma fun _ _ => rfl).optional

theorem again_time {i : Duration} {o : Option Duration} (h : (time i o).Reads) :
    timeReader.Again (fun _ => True) (time i o).text (time i o) := by
  obtain ⟨hi, ho⟩ := h
  have hclose := (again_blanks (t := []) rfl).seq ((again_char ')' fun _ => True).seq
    (again_pure (fun _ => True) (time i o)) fun _ _ => trivial) fun _ _ => rfl
  have hoffset := (again_offset ho).bind (f := fun o => do blanks; char ')'; return time i o) hclose
    fun rest _ => ⟨rest, rfl⟩
  have hinterval := (Duration.again_text hi).bind (f := fun i => do
    let o ← optional offsetReader; blanks; char ')'; return time i o) hoffset fun rest _ => by cases o <;> rfl
  obtain ⟨hne, hblank⟩ := Duration.text_start hi
  have hinside := ((again_blanks (t := []) rfl).seq hinterval fun rest _ =>
    (hblank.append hne _).append (List.append_ne_nil_of_left_ne_nil hne _) rest).must .noDuration
  have hopen := (again_char '(' fun _ => True).seq hinside fun _ _ => trivial
  rw [text_time_eq]
  exact (again_word (w := "time".toList) rfl).seq ((again_blanks (t := []) rfl).seq hopen fun _ _ => rfl) fun _ _ => rfl

theorem timeReader_refused {n : Text} (hrest : Expr.TermEnd rest) : timeReader (Name.text n ++ rest) = .refused := by
  unfold Name.text
  split
  · rename_i hbare
    obtain ⟨-, hparts, -⟩ := Name.isBare_iff.1 hbare
    have hword := word_append (v := "TIME".toList) (by decide) hparts hrest.lacks_word
    by_cases hsame : Text.sameWord "TIME".toList n = true
    · rw [if_pos hsame] at hword
      exact (bind_found hword).trans ((bind_found (blanks_found _)).trans (bind_refused (char_refused hrest.2)))
    · rw [if_neg hsame] at hword
      exact bind_refused hword
  · exact bind_refused (word_refused rfl rfl)

/-- **A printed dimension is read again.** -/
theorem reader_again {d : Dimension} (h : d.Reads) : reader.Again Expr.TermEnd d.text d := by
  intro rest hrest
  cases d with
  | time i o => exact orElse_found (again_time h rest trivial)
  | tag n =>
    obtain ⟨hne, -⟩ := Name.text_start n
    have hstar : Lacks (· == '*') (Name.text n ++ rest) := (Name.lacks_text (by decide) n).append hne rest
    have hslash : Lacks (· == '/') (Name.text n ++ rest) := (Name.lacks_text (by decide) n).append hne rest
    exact (orElse_refused (timeReader_refused hrest)).trans ((orElse_refused (bind_refused (char_refused hstar))).trans
      ((orElse_refused (map_refused (Regex.reader_refused hslash))).trans
        (map_found (Name.again_text n rest hrest.lacks_word))))
  | regex r => exact (orElse_refused rfl).trans ((orElse_refused rfl).trans (orElse_found (map_found (h rest trivial))))
  | wildcard => rfl

theorem text_start {d : Dimension} (h : d.Reads) : d.text ≠ [] ∧ Lacks Text.isBlank d.text := by
  cases d with
  | time i o =>
    rw [text_time_eq]
    exact ⟨List.append_ne_nil_of_left_ne_nil (by decide) _, rfl⟩
  | tag n => exact Name.text_start n
  | regex r => exact ⟨List.cons_ne_nil _ _, rfl⟩
  | wildcard => exact ⟨List.cons_ne_nil _ _, rfl⟩

/-- What the printed dimensions of a statement start with. -/
def listText (dimensions : List Dimension) : Text := "GROUP BY ".toList ++ Text.join ", ".toList (dimensions.map text)

/-- **Printed dimensions are read again.** -/
theorem clauseReader_again {dimensions : List Dimension} {words : List Text} (hne : dimensions ≠ [])
    (h : ∀ d ∈ dimensions, d.Reads) : clauseReader.Again (Clauses words) (listText dimensions) dimensions := by
  have hitem (d : Dimension) (hd : d ∈ dimensions) : (do blanks; reader : Reader Dimension).Prints Expr.TermEnd d.text d
      True := (reader_again (h d hd)).prints.blanks (text_start (h d hd)).1 (text_start (h d hd)).2
  have hlist := Prints.separated (G := Clauses words) hitem (fun _ => rfl)
    (fun rest => (Expr.SumEnd.of_atNext ⟨',', rest, rfl, .inl rfl⟩).1)
    (fun rest hrest => ⟨⟨hrest.lacks rfl, hrest.lacks_dropBlanks ?_⟩, hrest.lacks_dropBlanks ?_⟩) hne
  · have hspace : (separated comma (do blanks; reader)).Again (Clauses words)
        (' ' :: Text.join ", ".toList (dimensions.map text)) dimensions := hlist.again fun _ _ => trivial
    exact (again_word (w := "GROUP".toList) rfl).seq ((again_someBlanks (t := [' ']) rfl (by decide)).seq
      ((again_word (w := "BY".toList) rfl).seq (hspace.must .noDimension) fun _ _ => rfl) fun _ _ => rfl) fun _ _ => rfl
  · exact fun c hc => beq_eq_false_iff_ne.2 (by rintro rfl; cases hc)
  · exact fun c hc => beq_eq_false_iff_ne.2 (by rintro rfl; cases hc)

end Dimension

/-! ## Fills -/

namespace Fill

/-- Only a number below `2 ^ 63` is read again as a number. -/
def isLegible : Fill → Bool
  | value x => x.magnitude < 0x43E0000000000000
  | _ => true

/-- The fill with its number up to the sign of zero, which is not printed. -/
def settled : Fill → Fill
  | value x => value (Numeric.settled x)
  | f => f

/-- A fill that is not legible is not zero, and no other one is settled alike. -/
theorem eq_settled {f g : Fill} (h : g.settled = f.settled) (hf : f.isLegible = false) : g = f.settled := by
  cases f with
  | value x =>
    have hx : x.isZero = false := by
      have hlarge := of_decide_eq_false hf
      unfold Binary64.isZero
      rw [beq_eq_false_iff_ne]
      omega
    have hsettled : Numeric.settled x = x := by
      unfold Numeric.settled
      rw [hx]
      rfl
    cases g with
    | value y =>
      have h : Numeric.settled y = x := (value.inj h).trans hsettled
      unfold Numeric.settled at h
      split at h
      · rw [← h] at hx
        cases hx
      · rw [h, settled, hsettled]
    | _ => cases h
  | _ => cases hf

def wordReader (w : Text) (f : Fill) : Reader Fill := do
  word w
  return f

def valueReader : Reader Fill :=
  wordReader "NULL".toList null
    <|> wordReader "NONE".toList none
    <|> wordReader "PREVIOUS".toList previous
    <|> wordReader "LINEAR".toList linear
    <|> (fun n => value n.toFloat) <$> Numeric.reader

/-- What is printed between the parentheses. -/
def valueText : Fill → Text
  | null => "null".toList
  | none => "none".toList
  | previous => "previous".toList
  | linear => "linear".toList
  | value x => Layout.plain.text x

theorem text_eq (f : Fill) : f.text = "fill".toList ++ '(' :: (f.valueText ++ [')']) := by
  cases f <;> rfl

theorem wordReader_append {v w : Text} (f : Fill) (hv : v.all Text.isWordPart = true) (hw : w.all Text.isWordPart = true)
    (hrest : Lacks Text.isWordPart rest) :
    wordReader v f (w ++ rest) = if Text.sameWord v w then .found f rest else .refused := by
  have hword := word_append hv hw hrest
  by_cases hsame : Text.sameWord v w = true
  · rw [if_pos hsame] at hword ⊢
    exact bind_found hword
  · rw [if_neg hsame] at hword ⊢
    exact bind_refused hword

/-- The word of a fill without a number is read as that fill. -/
theorem valueReader_word {f : Fill} (hf : ∀ x, f ≠ value x) :
    valueReader.Again (Lacks Text.isWordPart) f.valueText f := by
  intro rest hrest
  have hword {v w : Text} (g : Fill) (hv : v.all Text.isWordPart = true) (hw : w.all Text.isWordPart = true) :=
    wordReader_append (v := v) (w := w) g hv hw hrest
  cases f with
  | null => exact orElse_found (hword null (by decide) (by decide))
  | none =>
    exact (orElse_refused (hword null (by decide) (by decide))).trans (orElse_found (hword none (by decide) (by decide)))
  | previous =>
    exact (orElse_refused (hword null (by decide) (by decide))).trans ((orElse_refused (hword none (by decide)
      (by decide))).trans (orElse_found (hword previous (by decide) (by decide))))
  | linear =>
    exact (orElse_refused (hword null (by decide) (by decide))).trans ((orElse_refused (hword none (by decide)
      (by decide))).trans ((orElse_refused (hword previous (by decide) (by decide))).trans
        (orElse_found (hword linear (by decide) (by decide)))))
  | value x => exact absurd rfl (hf x)

/-- What starts with a sign or a digit is read as a number. -/
theorem valueReader_number {s : Text} (h : Lacks Text.isWordStart s) :
    valueReader s = ((fun n => value n.toFloat) <$> Numeric.reader) s := by
  have hrefused {v : Text} (g : Fill) (hv : Text.startsWith Text.isWordStart v = true) : wordReader v g s = .refused :=
    bind_refused (word_refused hv h)
  exact (orElse_refused (hrefused null rfl)).trans ((orElse_refused (hrefused none rfl)).trans
    ((orElse_refused (hrefused previous rfl)).trans (orElse_refused (hrefused linear rfl))))

/-- A fill with a number is read as one from a number only. -/
theorem valueReader_found {s : Text} {x : Binary64} (h : valueReader s = .found (value x) rest) :
    ∃ n, Numeric.reader s = .found n rest := by
  have hword {w : Text} {f : Fill} (hf : f ≠ value x) : wordReader w f s ≠ .found (value x) rest := fun h => by
    obtain ⟨_, _, -, h⟩ := bind_eq_found_iff.1 h
    exact hf (Outcome.found.inj h).1
  rcases orElse_eq_found_iff.1 h with h | ⟨-, h⟩
  · exact absurd h (hword (by simp))
  rcases orElse_eq_found_iff.1 h with h | ⟨-, h⟩
  · exact absurd h (hword (by simp))
  rcases orElse_eq_found_iff.1 h with h | ⟨-, h⟩
  · exact absurd h (hword (by simp))
  rcases orElse_eq_found_iff.1 h with h | ⟨-, h⟩
  · exact absurd h (hword (by simp))
  · obtain ⟨n, hn, -⟩ := map_eq_found_iff.1 h
    exact ⟨n, hn⟩

theorem valueReader_prints (f : Fill) :
    valueReader.Prints (Lacks Text.goesOn) f.valueText f.settled (f.isLegible = true) := by
  by_cases hf : ∀ x, f ≠ value x
  · have hsettled : f.settled = f ∧ f.isLegible = true := by
      cases f with
      | value x => exact absurd rfl (hf x)
      | _ => exact ⟨rfl, rfl⟩
    rw [hsettled.1]
    exact ((valueReader_word hf).mono fun _ hrest => hrest.of_goesOn (by decide)).prints.imp (by simp [hsettled.2])
  · obtain ⟨x, hf⟩ := not_forall.1 hf
    obtain rfl := not_not.1 hf
    refine ⟨fun hlegible rest hrest => ?_, fun rest r hrest hfound => ?_⟩
    · have hsmall := of_decide_eq_true hlegible
      obtain ⟨n, hagain, hn⟩ := Numeric.again_plain hsmall
      obtain ⟨hne, hstart⟩ := Text.lacks_of_sign (p := Text.isWordStart) rfl (by decide)
        (Layout.plain_start (Numeric.isFinite_of_small hsmall))
      rw [settled, ← hn]
      exact (valueReader_number (hstart.append hne rest)).trans (map_found (hagain rest hrest))
    · by_contra hlarge
      obtain ⟨n, hn⟩ := valueReader_found hfound
      exact Numeric.reader_plain_large (Nat.not_lt.1 fun hlt => hlarge (decide_eq_true hlt)) hrest hn

/-- **A printed fill is read again exactly when it is legible**, up to the sign of zero. -/
theorem prints (f : Fill) : reader.Prints (fun _ => True) f.text f.settled (f.isLegible = true) := by
  have hstart : f.valueText ≠ [] ∧ Lacks Text.isBlank f.valueText := by
    cases f with
    | value x => exact Layout.plain_text_start x
    | _ => exact ⟨by decide, rfl⟩
  have hvalue := ((valueReader_prints f).parenthesized hstart.1 hstart.2).must .noFill
  rw [text_eq]
  have hword := again_word (v := "FILL".toList) (w := "fill".toList) rfl
  exact hword.prints_seq ((again_blanks (t := []) rfl).prints_seq hvalue fun _ _ => rfl) fun _ _ => rfl

end Fill

/-! ## The order -/

namespace Order

def directionText : Order → Text
  | ascending => "ASC".toList
  | descending => "DESC".toList

theorem text_eq (o : Order) : o.text =
    "ORDER".toList ++ ' ' :: ("BY".toList ++ ' ' :: ("TIME".toList ++ ' ' :: o.directionText)) := by
  cases o <;> rfl

theorem directionReader_again (o : Order) : directionReader.Again (Lacks Text.isWordPart) (' ' :: o.directionText) o := by
  have hspace := again_someBlanks (t := [' ']) rfl (by decide)
  have hend (o : Order) := again_pure (Lacks Text.isWordPart) o
  cases o with
  | ascending =>
    exact hspace.seq (((again_word (w := "ASC".toList) rfl).seq (hend ascending) fun _ h => h).orElse _) fun _ _ => rfl
  | descending =>
    exact hspace.seq (.else (fun _ _ => rfl) ((again_word (w := "DESC".toList) rfl).seq (hend descending) fun _ h => h))
      fun _ _ => rfl

theorem again_text (o : Order) : reader.Again (Lacks Text.isWordPart) o.text o := by
  have hdirection : (directionReader <|> pure ascending).Again (Lacks Text.isWordPart) (' ' :: o.directionText) o :=
    (directionReader_again o).orElse _
  have hspace := again_someBlanks (t := [' ']) rfl (by decide)
  have htime := hspace.seq ((again_word (v := "TIME".toList) (w := "TIME".toList) rfl).seq hdirection fun _ _ => rfl)
    fun _ _ => rfl
  have hother := Again.else (p := directionReader) (fun rest _ => by cases o <;> rfl) htime
  rw [text_eq]
  exact (again_word (w := "ORDER".toList) rfl).seq (hspace.seq ((again_word (w := "BY".toList) rfl).seq
    (hother.must .noOrder) fun _ _ => rfl) fun _ _ => rfl) fun _ _ => rfl

end Order

/-! ## Counts and the zone -/

theorem Signed.unsigned?_text (n : UInt64) : unsigned? (Decimal.text n.toNat) = some n := by
  have hdigits := Decimal.isDigits_text n.toNat
  unfold unsigned? Decimal.nat?
  rw [if_pos ⟨hdigits.ne_nil, hdigits.all⟩, Decimal.value_text]
  exact (if_pos n.toNat_lt).trans (congrArg some UInt64.ofNat_toNat)

namespace Select

theorem countReader_again (keyword : String) (fault : Fault) (n : UInt64) :
    (countReader keyword fault).Again (Lacks Char.isDigit) (keyword.toList ++ ' ' :: Decimal.text n.toNat) n := by
  have hdigits := Decimal.isDigits_text n.toNat
  have hcount : SeriesCache.countReader.Again (Lacks Char.isDigit) (Decimal.text n.toNat) n :=
    (again_digits hdigits.all hdigits.ne_nil).convert (Signed.unsigned?_text n) _
  exact (again_word rfl).seq ((again_someBlanks (t := [' ']) rfl (by decide)).seq (hcount.must fault)
    fun rest _ => Text.lacks_of_digit (by decide) (hdigits.startsWith rest)) fun _ _ => rfl

def zoneText (zone : Text) : Text := "tz(".toList ++ Quoted.text '\'' zone ++ [')']

theorem zoneReader_again (zone : Text) : zoneReader.Again (fun _ => True) (zoneText zone) zone := by
  have hquoted := (((Literal.again_quoted zone).mono fun _ _ => trivial).prints.parenthesized
    (List.cons_ne_nil _ _) rfl).again trivial
  exact (again_word (w := "tz".toList) rfl).seq ((again_blanks (t := []) rfl).seq (hquoted.must .noZone) fun _ _ => rfl)
    fun _ _ => rfl

end Select
end SeriesCache
