import SeriesCache.Proofs.Query.Again
import SeriesCache.Proofs.Query.Operand
/-!
# Reading literals again

A literal that was read is read again in front of a blank, a comma, a closing parenthesis or a sign
(`Literal.takes_again`): nothing of that kind goes on with a number, a unit or a word.
-/
namespace SeriesCache

open Reader
open Text (Lacks)
open Decimal (IsDigits signText again_sign)

variable {s t rest : Text}

/-- The characters behind a term of a sum are blanks, commas, closing parentheses and signs; all others may go on with
it. -/
def Text.goesOn (c : Char) : Bool := !(isBlank c || c == ',' || c == ')' || c == '+' || c == '-')

namespace Text

theorem lacks_cons {p : Char → Bool} {c : Char} (h : p c = false) (s : Text) : Lacks p (c :: s) := h

/-- A class without the characters behind a term does not go on with it. -/
theorem Lacks.of_goesOn {p : Char → Bool} (h : Lacks goesOn rest) (hp : [' ', '\t', '\r', '\n', ',', ')', '+', '-'].all
    (fun c => !p c) = true) : Lacks p rest := by
  refine h.imp fun c hc => ?_
  simp only [List.all_cons, List.all_nil, Bool.and_eq_true, Bool.not_eq_true', and_true] at hp
  simp only [goesOn, isBlank, Bool.not_eq_true', Bool.or_eq_false_iff, beq_eq_false_iff_ne]
  refine ⟨⟨⟨⟨⟨⟨⟨?_, ?_⟩, ?_⟩, ?_⟩, ?_⟩, ?_⟩, ?_⟩, ?_⟩ <;> rintro rfl <;> simp [hc] at hp

end Text

/-! ## Durations -/

namespace Duration

theorem takes_spelling_again : spelling.Takes fun t a => spelling.Again (Lacks Text.goesOn) t a ∧
    Text.startsWith (fun c => c == '-' || c.isDigit) t = true := by
  intro s c rest hs
  obtain ⟨w, rfl, hs, -⟩ := spelling_eq_found_iff.1 hs
  exact ⟨w.text, hs, fun rest hrest => spelling_eq_found_iff.2 ⟨w, rfl, rfl, hrest.of_goesOn (by decide)⟩,
    w.startsWith_text⟩

theorem takes_reader_again : reader.Takes fun t a => reader.Again (Lacks Text.goesOn) t a ∧
    Text.startsWith (fun c => c == '-' || c.isDigit) t = true :=
  .convert (takes_spelling_again.imp fun h _ hread => ⟨h.1.convert hread _, h.2⟩)

/-- What starts with neither a sign nor a digit is no duration. -/
theorem reader_refused (h : Lacks (fun c => c == '-' || c.isDigit) s) : reader s = .refused :=
  reader_refused_of_term false (term?_eq_none (h.imp fun c hc => by rw [hc, Bool.or_true]))
    (h.imp fun c hc => by rw [hc]; rfl)

/-- Digits without a unit are no duration. -/
theorem reader_refused_of_digits {negative : Bool} (ht : IsDigits t)
    (hrest : Lacks (fun c => c.isDigit || ['n', 'µ', 'u', 'm', 's', 'h', 'd', 'w'].contains c) rest) :
    reader (signText negative ++ (t ++ rest)) = .refused := by
  refine reader_refused_of_term negative ?_ (Text.lacks_of_digit (by decide) (ht.startsWith rest))
  rw [term?, Decimal.span_digits ht.all (hrest.imp fun c hc => by rw [hc, Bool.true_or])]
  simp only [if_neg ht.ne_nil, unitPrefix?_eq_none (hrest.imp fun c hc => by rw [hc, Bool.or_true]), Option.map_none]

end Duration

/-! ## Numbers -/

namespace Numeric

theorem takes_fraction_again :
    fraction.Takes fun t a => fraction.Again (Lacks Char.isDigit) t a ∧ Text.startsWith (· == '.') t = true := by
  refine (takes_char '.').bind fun ht => takes_digits.imp fun ⟨hu, hne, hdigits⟩ => ?_
  rw [ht, hu]
  exact ⟨(again_char '.' fun _ => True).bind (again_digits hdigits hne) fun _ _ => trivial, rfl⟩

/-- The marks of an exponent. -/
def isMark (c : Char) : Bool := c == 'e' || c == 'E'

def markReader : Reader Unit := char 'e' <|> char 'E'

def signReader : Reader Bool := (do char '-'; return true) <|> (do char '+'; return false) <|> pure false

theorem takes_mark_again :
    markReader.Takes fun t _ => markReader.Again (fun _ => True) t () ∧ Text.startsWith isMark t = true := by
  refine .orElse ((takes_char 'e').imp fun ht => ?_) ((takes_char 'E').imp fun ht => ?_)
  · rw [ht]
    exact ⟨(again_char 'e' _).orElse _, rfl⟩
  · rw [ht]
    exact ⟨.else (fun _ _ => rfl) (again_char 'E' _), rfl⟩

theorem takes_sign_again : signReader.Takes fun t b => signReader.Again (Lacks fun c => c == '-' || c == '+') t b := by
  have hrefused {c : Char} (hc : c = '-' ∨ c = '+') {rest : Text} (hrest : Lacks (fun c => c == '-' || c == '+') rest) :
      char c rest = .refused :=
    char_refused (hrest.imp fun d hd => by rcases hc with rfl | rfl <;> simp [beq_iff_eq.1 hd])
  have hminus : (do char '-'; return true : Reader Bool).Takes fun t b =>
      signReader.Again (Lacks fun c => c == '-' || c == '+') t b :=
    (takes_char '-').bind fun ht => takes_pure <| by
      rw [ht]
      exact ((again_char '-' fun _ => True).bind (again_pure _ true) fun _ _ => trivial).orElse _
  have hplus : (do char '+'; return false : Reader Bool).Takes fun t b =>
      signReader.Again (Lacks fun c => c == '-' || c == '+') t b :=
    (takes_char '+').bind fun ht => takes_pure <| by
      rw [ht]
      exact .else (fun _ _ => rfl) (((again_char '+' fun _ => True).bind (again_pure _ false) fun _ _ => trivial).orElse _)
  have hnone : signReader.Again (Lacks fun c => c == '-' || c == '+') [] false :=
    .else (fun _ hrest => bind_refused (hrefused (.inl rfl) hrest))
      (.else (fun _ hrest => bind_refused (hrefused (.inr rfl) hrest)) (again_pure _ false))
  exact hminus.orElse (hplus.orElse (takes_pure hnone))

theorem takes_exponent_again :
    exponent.Takes fun t n => exponent.Again (Lacks Char.isDigit) t n ∧ Text.startsWith isMark t = true := by
  refine takes_mark_again.bind fun ⟨hmark, hstart⟩ => takes_sign_again.bind fun hsign =>
    takes_digits.bind fun ⟨hv, hne, hdigits⟩ => takes_pure ⟨?_, Text.startsWith_append hstart _⟩
  rw [hv]
  refine hmark.bind (hsign.bind ((again_digits hdigits hne).bind (again_pure _ _) fun _ h => h) fun rest _ => ?_)
    fun _ _ => trivial
  rw [List.append_nil]
  exact Text.lacks_of_digit (by decide) (Text.startsWith_append (Text.startsWith_of_all hdigits hne) rest)

/-- A sign, digits, and what goes on with neither digits nor a unit. -/
def Shaped (t : Text) : Prop := ∃ (negative : Bool) (ds u : Text), t = signText negative ++ (ds ++ u) ∧ IsDigits ds ∧
  (u = [] ∨ Text.startsWith (fun c => c == '.' || isMark c) u = true)

/-- What stands behind the digits of a number, in front of what does not go on with it. -/
theorem lacks_of_places {p : Char → Bool} {u : Text} (hp : p '.' = false ∧ p 'e' = false ∧ p 'E' = false)
    (hu : u = [] ∨ Text.startsWith (fun c => c == '.' || isMark c) u = true) (hrest : Lacks p rest) :
    Lacks p (u ++ rest) := by
  rcases hu with rfl | hu
  · exact hrest
  · cases u with
    | nil => cases hu
    | cons c u =>
      simp only [Text.startsWith, isMark, Bool.or_eq_true, beq_iff_eq] at hu
      rcases hu with rfl | rfl | rfl
      · exact hp.1
      · exact hp.2.1
      · exact hp.2.2

theorem takes_optionalMinus_again : (optional (char '-')).Takes fun t sign =>
    (optional (char '-')).Again (Lacks (· == '-')) t sign ∧ t = signText sign.isSome :=
  Decimal.takes_sign.imp fun {_ sign} ht => ⟨ht ▸ match sign with
    | none => again_sign false
    | some () => again_sign true, ht⟩

theorem again_noFraction : (optional fraction).Again (Lacks fun c => c.isDigit || c == '.') [] none :=
  again_optional_none fun _ h => bind_refused (char_refused (h.imp fun c hc => by rw [hc, Bool.or_true]))

theorem takes_optionalFraction_again : (optional fraction).Takes fun t places =>
    (optional fraction).Again (Lacks fun c => c.isDigit || c == '.') t places ∧
      (t = [] ∨ Text.startsWith (· == '.') t = true) :=
  (takes_fraction_again.imp fun h => ⟨h.1.optional.mono fun _ h => h.imp fun c hc => by rw [hc]; rfl,
    .inr h.2⟩).optional ⟨again_noFraction, .inl rfl⟩

theorem again_noExponent : (optional exponent).Again (Lacks Text.goesOn) [] none :=
  again_optional_none fun rest hrest => by
    have he : char 'e' rest = .refused := char_refused (hrest.of_goesOn (by decide))
    have hE : char 'E' rest = .refused := char_refused (hrest.of_goesOn (by decide))
    exact bind_refused ((orElse_refused he).trans hE)

theorem takes_optionalExponent_again : (optional exponent).Takes fun t n =>
    (optional exponent).Again (Lacks Text.goesOn) t n ∧ (t = [] ∨ Text.startsWith isMark t = true) :=
  (takes_exponent_again.imp fun h => ⟨h.1.optional.mono fun _ h => h.of_goesOn (by decide),
    .inr h.2⟩).optional ⟨again_noExponent, .inl rfl⟩

/-- An exponent does not go on with a fraction. -/
theorem lacks_of_mark {x : Text} (hx : x = [] ∨ Text.startsWith isMark x = true) (hrest : Lacks Text.goesOn rest) :
    Lacks (fun c => c.isDigit || c == '.') (x ++ rest) := by
  rcases hx with rfl | hx
  · exact hrest.of_goesOn (by decide)
  · cases x with
    | nil => cases hx
    | cons c x =>
      simp only [Text.startsWith, isMark, Bool.or_eq_true, beq_iff_eq] at hx
      rcases hx with rfl | rfl <;> rfl

theorem takes_spelling_again :
    spelling.Takes fun t n => spelling.Again (Lacks Text.goesOn) t n ∧ Shaped t := by
  refine takes_optionalMinus_again.bind fun hs => takes_digits.bind fun {_ ds} ⟨hd, hne, hdigits⟩ =>
    takes_optionalFraction_again.bind fun {f _} hf => takes_optionalExponent_again.bind fun {x _} hx => takes_pure ?_
  have hmarks : x = [] ∨ Text.startsWith (fun c => c == '.' || isMark c) x = true :=
    hx.2.imp_right fun h => Text.startsWith_imp h fun c hc => by rw [hc, Bool.or_true]
  have hplaces : f ++ (x ++ []) = [] ∨ Text.startsWith (fun c => c == '.' || isMark c) (f ++ (x ++ [])) = true := by
    rw [List.append_nil]
    rcases hf.2 with rfl | hf
    · exact hmarks
    · exact .inr (Text.startsWith_append (Text.startsWith_imp hf fun c hc => by rw [hc]; rfl) x)
  rw [hd]
  refine ⟨?_, _, ds, _, congrArg (· ++ _) hs.2, ⟨hne, hdigits⟩, hplaces⟩
  refine hs.1.bind ((again_digits hdigits hne).bind (hf.1.bind (hx.1.bind (again_pure _ _) fun _ h => h)
    fun rest hrest => ?_) fun rest hrest => ?_) fun rest _ => ?_
  · rw [List.append_nil]
    exact lacks_of_mark hx.2 hrest
  · exact lacks_of_places (by decide) hplaces (hrest.of_goesOn (by decide))
  · rw [List.append_assoc]
    exact Text.lacks_of_digit (by decide) (Text.startsWith_append (Text.startsWith_of_all hdigits hne) _)

theorem Shaped.startsWith (h : Shaped t) : Text.startsWith (fun c => c == '-' || c.isDigit) t = true := by
  obtain ⟨negative, ds, u, rfl, hdigits, -⟩ := h
  exact Decimal.startsWith_sign negative (hdigits.startsWith u)

/-- A number is read again, and no duration is read in its place. -/
theorem takes_reader_again : reader.Takes fun t n => reader.Again (Lacks Text.goesOn) t n ∧ Shaped t :=
  .convert (takes_spelling_again.imp fun h _ hread => ⟨h.1.convert hread _, h.2⟩)

theorem Shaped.duration_refused (h : Shaped t) (hrest : Lacks Text.goesOn rest) : Duration.reader (t ++ rest) = .refused := by
  obtain ⟨negative, ds, u, rfl, hdigits, hu⟩ := h
  rw [List.append_assoc, List.append_assoc]
  exact Duration.reader_refused_of_digits hdigits (lacks_of_places (by decide) hu (hrest.of_goesOn (by decide)))

theorem reader_refused (h : Lacks (fun c => c == '-' || c.isDigit) s) : reader s = .refused := by
  have hsign : optional (char '-') s = .found none s :=
    optional_refused (char_refused (h.imp fun c hc => by rw [hc]; rfl))
  have hdigits : digits s = .refused := by
    have htake : s.takeWhile Char.isDigit = [] := by
      cases s with
      | nil => rfl
      | cons c s =>
        refine List.takeWhile_cons_of_neg fun hc => ?_
        simp [Lacks, Text.startsWith, hc] at h
    rw [digits]
    exact if_pos htake
  have hspelling : spelling s = .refused := (bind_found hsign).trans (bind_refused hdigits)
  rw [reader, convert, hspelling]

end Numeric

/-! ## Quoted texts and expressions -/

theorem Quoted.takes_again {quote : Char} (hslash : quote ≠ '\\') : (Quoted.reader quote).Takes fun t a =>
    (Quoted.reader quote).Again (fun _ => True) t a ∧ Text.startsWith (· == quote) t = true := by
  intro s a rest hs
  cases s with
  | nil => cases hs
  | cons c s =>
    rw [Quoted.reader] at hs
    split at hs
    · rename_i hc
      split at hs
      · rename_i hbody
        cases hs
        obtain ⟨u, rfl, hu⟩ := Quoted.body?_append hslash hbody
        refine ⟨quote :: u ++ [quote], by rw [hc]; simp, fun rest' _ => ?_, beq_self_eq_true quote⟩
        rw [List.append_assoc, List.cons_append, List.singleton_append, Quoted.reader, if_pos rfl, hu]
      · cases hs
    · cases hs

theorem Quoted.reader_refused {quote : Char} (h : Lacks (· == quote) s) : Quoted.reader quote s = .refused := by
  cases s with
  | nil => rfl
  | cons c s => exact if_neg fun hc => Bool.eq_false_iff.1 h (beq_iff_eq.2 hc)

theorem Regex.takes_again : Regex.reader.Takes fun t a =>
    Regex.reader.Again (fun _ => True) t a ∧ Text.startsWith (· == '/') t = true := by
  intro s a rest hs
  rw [Regex.reader.eq_def] at hs
  split at hs
  · split at hs
    · rename_i hbody
      cases hs
      obtain ⟨rfl, hagain⟩ := Regex.body?_escape hbody
      refine ⟨Regex.text a, by rw [Regex.text_eq]; simp, fun rest' _ => ?_, rfl⟩
      rw [Regex.text_eq, List.append_assoc, List.cons_append, List.singleton_append, Regex.reader, hagain]
    · cases hs
  · cases hs

theorem Regex.reader_refused (h : Lacks (· == '/') s) : Regex.reader s = .refused := by
  rw [Regex.reader.eq_def]
  split
  · cases h
  · rfl

/-! ## All literals -/

namespace Literal

/-- A truth value is a word of its own. -/
theorem booleanReader_append (ht : t.all Text.isWordPart = true) (hrest : Lacks Text.isWordPart rest) :
    booleanReader (t ++ rest) = if Text.sameWord "TRUE".toList t then .found true rest
      else if Text.sameWord "FALSE".toList t then .found false rest else .refused := by
  have htrue := word_append (v := "TRUE".toList) (by decide) ht hrest
  have hfalse := word_append (v := "FALSE".toList) (by decide) ht hrest
  by_cases h : Text.sameWord "TRUE".toList t = true
  · rw [if_pos h] at htrue ⊢
    exact orElse_found (bind_found htrue)
  · rw [if_neg h] at htrue ⊢
    refine (orElse_refused (bind_refused htrue)).trans ?_
    by_cases h' : Text.sameWord "FALSE".toList t = true
    · rw [if_pos h'] at hfalse ⊢
      exact bind_found hfalse
    · rw [if_neg h'] at hfalse ⊢
      exact bind_refused hfalse

theorem booleanReader_refused (h : Lacks Text.isWordStart s) : booleanReader s = .refused :=
  (orElse_refused (bind_refused (word_refused (by decide) h))).trans (bind_refused (word_refused (by decide) h))

/-- What literals other than the truth values start with. -/
def opens (c : Char) : Bool := c == '-' || c.isDigit || c == '\'' || c == '/'

theorem reader_eq (h : Lacks opens s) : reader s = (boolean <$> booleanReader) s := by
  have hnumber : Lacks (fun c => c == '-' || c.isDigit) s := h.imp fun c hc => by rw [opens, hc]; rfl
  have hduration : (duration <$> Duration.reader) s = .refused := map_refused (Duration.reader_refused hnumber)
  have hnumeric : (Numeric.toLiteral <$> Numeric.reader) s = .refused := map_refused (Numeric.reader_refused hnumber)
  have hstring : (string <$> Quoted.reader '\'') s = .refused :=
    map_refused (Quoted.reader_refused (h.imp fun c hc => by rw [opens, hc]; simp))
  have hregex : (regex <$> Regex.reader) s = .refused :=
    map_refused (Regex.reader_refused (h.imp fun c hc => by rw [opens, hc]; simp))
  exact (orElse_refused hduration).trans ((orElse_refused hnumeric).trans ((orElse_refused hstring).trans
    (orElse_refused hregex)))

theorem lacks_of_opens {p : Char → Bool} (hp : ['-', '\'', '/'].all (fun c => !p c) = true)
    (hdigit : ∀ n : Fin 10, p (Char.ofNat (48 + n)) = false) (h : Text.startsWith opens t = true) : Lacks p t := by
  cases t with
  | nil => rfl
  | cons c t =>
    simp only [List.all_cons, List.all_nil, Bool.and_eq_true, Bool.not_eq_true', and_true] at hp
    simp only [Text.startsWith, opens, Bool.or_eq_true, beq_iff_eq] at h
    rcases h with ((rfl | h) | rfl) | rfl
    · exact hp.1
    · exact Text.forall_digit (P := fun c => p c = false) hdigit h
    · exact hp.2.1
    · exact hp.2.2

theorem lacks_opens (h : Text.startsWith Text.isWordStart s = true) : Lacks opens s := by
  cases hopens : Text.startsWith opens s with
  | false => exact hopens
  | true =>
    have hword : Lacks Text.isWordStart s := lacks_of_opens (by decide) (by decide) hopens
    rw [Lacks, h] at hword
    cases hword

/-- At a word, a literal is read when the word is a truth value. -/
theorem reader_word (hstart : Text.startsWith Text.isWordStart t = true) (ht : t.all Text.isWordPart = true)
    (hrest : Lacks Text.isWordPart rest) : reader (t ++ rest) =
      if Text.sameWord "TRUE".toList t then .found (boolean true) rest
      else if Text.sameWord "FALSE".toList t then .found (boolean false) rest else .refused := by
  have hboolean := booleanReader_append ht hrest
  rw [reader_eq (lacks_opens (Text.startsWith_append hstart rest))]
  split
  · rename_i htrue
    rw [if_pos htrue] at hboolean
    exact map_found hboolean
  · rename_i htrue
    rw [if_neg htrue] at hboolean
    split
    · rename_i hfalse
      rw [if_pos hfalse] at hboolean
      exact map_found hboolean
    · rename_i hfalse
      rw [if_neg hfalse] at hboolean
      exact map_refused hboolean

/-- The text starts like a number, a string or an expression, or is a word. -/
def Begins (t : Text) : Prop := Text.startsWith opens t = true ∨ t ≠ [] ∧ t.all Text.isWordPart = true

theorem takes_boolean_again :
    (boolean <$> booleanReader).Takes fun t l => reader.Again (Lacks Text.goesOn) t l ∧ Begins t := by
  have hword {v : Text} (hv : v.all Text.isWordPart = true) (hstart : Text.startsWith Text.isWordStart v = true) :
      (word v).Takes fun t _ => Text.sameWord v t = true ∧ Text.startsWith Text.isWordStart t = true ∧
        t.all Text.isWordPart = true := by
    refine (takes_word v).imp fun {t _} ht => ⟨beq_iff_eq.2 ht.symm, ?_, ?_⟩
    · rw [← Text.startsWith_lower, ht, Text.startsWith_lower, hstart]
    · rw [← Text.all_isWordPart_lower, ht, Text.all_isWordPart_lower, hv]
  have hbegins {t : Text} (hstart : Text.startsWith Text.isWordStart t = true) (ht : t.all Text.isWordPart = true) :
      Begins t := by
    refine .inr ⟨fun hnil => ?_, ht⟩
    rw [hnil] at hstart
    cases hstart
  have htrue : (do word "TRUE".toList; return true : Reader Bool).Takes fun t b =>
      reader.Again (Lacks Text.goesOn) t (boolean b) ∧ Begins t := by
    refine (hword (by decide) (by decide)).bind fun ⟨hsame, hstart, ht⟩ => takes_pure ?_
    rw [List.append_nil]
    refine ⟨fun rest hrest => ?_, hbegins hstart ht⟩
    rw [reader_word hstart ht (hrest.of_goesOn (by decide)), if_pos hsame]
  have hfalse : (do word "FALSE".toList; return false : Reader Bool).Takes fun t b =>
      reader.Again (Lacks Text.goesOn) t (boolean b) ∧ Begins t := by
    refine (hword (by decide) (by decide)).bind fun ⟨hsame, hstart, ht⟩ => takes_pure ?_
    rw [List.append_nil]
    refine ⟨fun rest hrest => ?_, hbegins hstart ht⟩
    have htrue : ¬ Text.sameWord "TRUE".toList _ = true := fun htrue => by
      have hlower := (beq_iff_eq.1 htrue).trans (beq_iff_eq.1 hsame).symm
      exact absurd hlower (by decide)
    rw [reader_word hstart ht (hrest.of_goesOn (by decide)), if_neg htrue, if_pos hsame]
  exact .map (.orElse htrue hfalse)

theorem again_duration {d : Duration} (h : Duration.reader.Again (Lacks Text.goesOn) t d) :
    reader.Again (Lacks Text.goesOn) t (duration d) := (h.map _).orElse _

theorem again_numeric {n : Numeric} (h : Numeric.reader.Again (Lacks Text.goesOn) t n) (hshaped : Numeric.Shaped t) :
    reader.Again (Lacks Text.goesOn) t n.toLiteral :=
  .else (fun _ hrest => map_refused (hshaped.duration_refused hrest)) ((h.map _).orElse _)

theorem again_string {u : Text} (h : (Quoted.reader '\'').Again (fun _ => True) t u)
    (hquote : Text.startsWith (· == '\'') t = true) : reader.Again (Lacks Text.goesOn) t (string u) := by
  have hlacks (rest : Text) : Lacks (fun c => c == '-' || c.isDigit) (t ++ rest) := Text.lacks_of_first rfl hquote rest
  exact .else (fun rest _ => map_refused (Duration.reader_refused (hlacks rest)))
    (.else (fun rest _ => map_refused (Numeric.reader_refused (hlacks rest)))
      (((h.mono fun _ _ => trivial).map _).orElse _))

theorem again_regex {r : Text} (h : Regex.reader.Again (fun _ => True) t r)
    (hslash : Text.startsWith (· == '/') t = true) : reader.Again (Lacks Text.goesOn) t (regex r) := by
  have hlacks (rest : Text) : Lacks (fun c => c == '-' || c.isDigit) (t ++ rest) := Text.lacks_of_first rfl hslash rest
  have hstring (rest : Text) : Quoted.reader '\'' (t ++ rest) = .refused :=
    Quoted.reader_refused (Text.lacks_of_first rfl hslash rest)
  exact .else (fun rest _ => map_refused (Duration.reader_refused (hlacks rest)))
    (.else (fun rest _ => map_refused (Numeric.reader_refused (hlacks rest)))
      (.else (fun rest _ => map_refused (hstring rest)) (((h.mono fun _ _ => trivial).map _).orElse _)))

/-- **A literal is read again** in front of what does not go on with it. -/
theorem takes_again : reader.Takes fun t l => reader.Again (Lacks Text.goesOn) t l ∧ Begins t := by
  have hduration : (duration <$> Duration.reader).Takes fun t l => reader.Again (Lacks Text.goesOn) t l ∧ Begins t :=
    .map (Duration.takes_reader_again.imp fun h => ⟨again_duration h.1,
      .inl (Text.startsWith_imp h.2 fun c hc => by rw [opens, hc]; rfl)⟩)
  have hnumeric : (Numeric.toLiteral <$> Numeric.reader).Takes fun t l =>
      reader.Again (Lacks Text.goesOn) t l ∧ Begins t :=
    .map (Numeric.takes_reader_again.imp fun h => ⟨again_numeric h.1 h.2,
      .inl (Text.startsWith_imp h.2.startsWith fun c hc => by rw [opens, hc]; rfl)⟩)
  have hstring : (string <$> Quoted.reader '\'').Takes fun t l =>
      reader.Again (Lacks Text.goesOn) t l ∧ Begins t :=
    .map ((Quoted.takes_again (by decide)).imp fun h => ⟨again_string h.1 h.2,
      .inl (Text.startsWith_imp h.2 fun c hc => by rw [opens, hc]; simp)⟩)
  have hregex : (regex <$> Regex.reader).Takes fun t l => reader.Again (Lacks Text.goesOn) t l ∧ Begins t :=
    .map (Regex.takes_again.imp fun h => ⟨again_regex h.1 h.2,
      .inl (Text.startsWith_imp h.2 fun c hc => by rw [opens, hc]; simp)⟩)
  exact hduration.orElse (hnumeric.orElse (hstring.orElse (hregex.orElse takes_boolean_again)))

end Literal

end SeriesCache
