import SeriesCache.Proofs.Query.Duration
import SeriesCache.Proofs.Query.Scan
import SeriesCache.Query.Operand
/-!
# The texts of operands

An operand keeps the text it was read from, so what is passed over in a printed condition is what a reader
took off another text.  It is passed over all the same (`takes_operand`): its names are not reserved, and its quotes and
slashes are closed.
-/
namespace SeriesCache

/-! ## Calls -/

namespace Reader

variable {α β γ : Type}

theorem bind_assoc (p : Reader α) (f : α → Reader β) (g : β → Reader γ) :
    (p >>= f) >>= g = p >>= fun a => f a >>= g := by
  funext s
  show Reader.bind (Reader.bind p f) g s = Reader.bind p (fun a => Reader.bind (f a) g) s
  unfold Reader.bind
  cases p s <;> rfl

/-- A call of whatever has arguments, with the reader for its end. -/
def callWith (close : Reader Unit) (make : Text → List α → α) (arg : Reader α) : Reader α := do
  let function ← Name.bare
  blanks; char '('
  let args ← separated comma (do blanks; arg) <|> pure []
  close
  return make function args

end Reader

theorem Expr.callReader_eq (arg : Reader Expr) : callReader arg =
    Reader.callWith (do Reader.blanks; Reader.char ')') (fun f args => call (Text.lower f) args) arg := by
  unfold callReader Reader.callWith
  simp only [Reader.bind_assoc]

namespace Scan

open Reader

variable {w t u : Text}

/-! ## Texts that end -/

/-- The walk passes over the text, and the text does not end in a blank. -/
structure Whole (w t : Text) : Prop where
  skips : Skips w t
  last : ∃ u c, t = u ++ [c] ∧ Text.isWhite c = false

/-- What may follow a whole text without going on with its last word. -/
def Tail (w t : Text) : Prop := t = [] ∨ Whole w t ∧ Text.startsWith Text.isWordPart t = false

theorem Whole.append (ht : Skips w t) (hu : Whole w u) (h : Text.startsWith Text.isWordPart u = false) :
    Whole w (t ++ u) := by
  obtain ⟨v, c, rfl, hc⟩ := hu.last
  exact ⟨ht.append hu.skips h, t ++ v, c, (List.append_assoc ..).symm, hc⟩

theorem Whole.append_tail (ht : Whole w t) (hu : Tail w u) : Whole w (t ++ u) := by
  rcases hu with rfl | ⟨hu, h⟩
  · rwa [List.append_nil]
  · exact hu.append ht.skips h

theorem Tail.append (ht : Tail w t) (hu : Tail w u) : Tail w (t ++ u) := by
  rcases ht with rfl | ⟨ht, h⟩
  · exact hu
  · obtain ⟨v, c, rfl, -⟩ := ht.last
    refine .inr ⟨ht.append_tail hu, ?_⟩
    cases v <;> exact h

theorem Whole.marks (hu : Whole w u) (ht : t.all isMark = true) : Whole w (t ++ u) := by
  obtain ⟨v, c, rfl, hc⟩ := hu.last
  exact ⟨hu.skips.marks ht, t ++ v, c, (List.append_assoc ..).symm, hc⟩

theorem startsWith_marks (ht : t.all isMark = true) (hu : Text.startsWith Text.isWordPart u = false) :
    Text.startsWith Text.isWordPart (t ++ u) = false := by
  cases t with
  | nil => exact hu
  | cons c t => exact startsWith_of_isMark (Bool.and_eq_true_iff.1 (List.all_cons.symm.trans ht)).1 (t ++ u)

theorem Whole.tail (hu : Whole w u) (ht : t.all isMark = true) (hne : t ≠ []) : Tail w (t ++ u) := by
  obtain ⟨c, v, rfl⟩ := List.exists_cons_of_ne_nil hne
  exact .inr ⟨hu.marks ht, startsWith_of_isMark (Bool.and_eq_true_iff.1 (List.all_cons.symm.trans ht)).1 _⟩

/-- Characters of numbers, units and signs. -/
def isSolid (c : Char) : Bool := isPlain c && !Text.isWhite c

theorem isPlain_of_isSolid {c : Char} (h : isSolid c = true) : isPlain c = true := (Bool.and_eq_true_iff.1 h).1

theorem whole_of_all (hw : IsKeyword w) (hne : t ≠ []) (h : t.all isSolid = true) : Whole w t := by
  have hsolid := List.all_eq_true.1 h
  refine ⟨skips_plain hw (List.all_eq_true.2 fun c hc => isPlain_of_isSolid (hsolid c hc)), t.dropLast,
    t.getLast hne, (List.dropLast_concat_getLast hne).symm, ?_⟩
  simpa using (Bool.and_eq_true_iff.1 (hsolid _ (List.getLast_mem hne))).2

theorem whole_of_unreserved (hw : IsKeyword w) (hne : t ≠ []) (ht : t.all Text.isWordPart = true)
    (hreserved : Name.isReserved t = false) : Whole w t :=
  ⟨skips_unreserved hw ht hreserved, t.dropLast, t.getLast hne, (List.dropLast_concat_getLast hne).symm,
    Text.isWhite_of_isWordPart (List.all_eq_true.1 ht _ (List.getLast_mem hne))⟩

/-! ## Literals -/

theorem isSolid_of_isDigit {c : Char} (h : c.isDigit = true) : isSolid c = true :=
  Text.forall_digit (P := fun c => isSolid c = true) (by decide) h

/-- What the reader takes is made of the characters of numbers. -/
def Solid (t : Text) : Prop := t ≠ [] ∧ t.all isSolid = true

theorem solid_of_isDigit (hne : t ≠ []) (h : t.all Char.isDigit = true) : Solid t :=
  ⟨hne, List.all_eq_true.2 fun c hc => isSolid_of_isDigit (List.all_eq_true.1 h c hc)⟩

theorem Solid.append (ht : t.all isSolid = true) (hu : Solid u) : Solid (t ++ u) :=
  ⟨List.append_ne_nil_of_right_ne_nil t hu.1, by rw [List.all_append, ht, hu.2]; rfl⟩

theorem Solid.append_all (ht : Solid t) (hu : u.all isSolid = true) : Solid (t ++ u) :=
  ⟨List.append_ne_nil_of_left_ne_nil ht.1 u, by rw [List.all_append, ht.2, hu]; rfl⟩

theorem takes_fraction : Numeric.fraction.Takes fun t _ => t.all isSolid = true :=
  (takes_char '.').bind fun ht => takes_digits.imp fun ⟨hu, hne, hdigits⟩ => by
    rw [ht, hu, List.all_append, (solid_of_isDigit hne hdigits).2]
    decide

theorem takes_exponent : Numeric.exponent.Takes fun t _ => t.all isSolid = true := by
  have hmark : (char 'e' <|> char 'E').Takes fun t _ => t.all isSolid = true :=
    ((takes_char 'e').imp fun ht => by rw [ht]; decide).orElse ((takes_char 'E').imp fun ht => by rw [ht]; decide)
  have hminus : (do char '-'; return true : Reader Bool).Takes fun t _ => t.all isSolid = true :=
    (takes_char '-').bind fun ht => takes_pure (by rw [ht]; decide)
  have hplus : (do char '+'; return false : Reader Bool).Takes fun t _ => t.all isSolid = true :=
    (takes_char '+').bind fun ht => takes_pure (by rw [ht]; decide)
  refine hmark.bind fun ht => Takes.bind (hminus.orElse (hplus.orElse (takes_pure rfl))) fun hu =>
    takes_digits.bind fun ⟨hv, hne, hdigits⟩ => takes_pure ?_
  rw [hv, List.append_nil, List.all_append, List.all_append, ht, hu, (solid_of_isDigit hne hdigits).2]
  rfl

theorem takes_numericSpelling : Numeric.spelling.Takes fun t _ => Solid t := by
  have hsign : (optional (char '-')).Takes fun t _ => t.all isSolid = true :=
    ((takes_char '-').imp fun ht => by rw [ht]; decide).optional rfl
  have hfraction : (optional Numeric.fraction).Takes fun t _ => t.all isSolid = true := takes_fraction.optional rfl
  have hexponent : (optional Numeric.exponent).Takes fun t _ => t.all isSolid = true := takes_exponent.optional rfl
  refine hsign.bind fun ht => takes_digits.bind fun ⟨hu, hne, hdigits⟩ => hfraction.bind fun hv =>
    hexponent.bind fun hx => takes_pure ?_
  rw [hu, List.append_nil]
  refine Solid.append ht ((solid_of_isDigit hne hdigits).append_all ?_)
  rw [List.all_append, hv, hx]
  rfl

theorem solid_term (t : Duration.Term) : Solid t.text := by
  have hunits : Duration.units.all (fun u => u.1.all isSolid) = true := by decide
  exact (solid_of_isDigit t.isDigits.ne_nil t.isDigits.all).append_all (List.all_eq_true.1 hunits t.unit t.isUnit)

theorem solid_spelling (w : Duration.Spelling) : Solid w.text := by
  have hsign : (Decimal.signText w.negative).all isSolid = true := by cases w.negative <;> decide
  obtain ⟨t, ts, hts⟩ := List.exists_cons_of_ne_nil w.ne_nil
  have hterms : (Duration.termsText ts).all isSolid = true := by
    rw [Duration.termsText, List.all_flatMap]
    exact List.all_eq_true.2 fun t _ => (solid_term t).2
  rw [Duration.Spelling.text, hts]
  exact Solid.append hsign ((solid_term t).append_all hterms)

theorem takes_durationSpelling : Duration.spelling.Takes fun t _ => Solid t := fun s a rest hs => by
  obtain ⟨w, -, hs, -⟩ := Duration.spelling_eq_found_iff.1 hs
  exact ⟨w.text, hs, solid_spelling w⟩

theorem takes_quoted {quote : Char} (hquote : quote = '"' ∨ quote = '\'') :
    (Quoted.reader quote).Takes fun t _ => Whole w t := fun s a rest hs => by
  have hslash : quote ≠ '\\' ∧ Text.isWhite quote = false := by rcases hquote with rfl | rfl <;> decide
  cases s with
  | nil => cases hs
  | cons c s =>
    rw [Quoted.reader] at hs
    split at hs
    · rename_i hc
      split at hs
      · rename_i hbody
        cases hs
        obtain ⟨u, rfl, hu⟩ := Quoted.body?_append hslash.1 hbody
        exact ⟨quote :: u ++ [quote], by rw [hc]; simp, skips_quoted hquote hu, quote :: u, quote, rfl, hslash.2⟩
      · cases hs
    · cases hs

theorem takes_regex : Regex.reader.Takes fun t a => t = Regex.text a ∧ Whole w t := fun s a rest hs => by
  rw [Regex.reader.eq_def] at hs
  split at hs
  · split at hs
    · rename_i hbody
      cases hs
      obtain ⟨hs, -⟩ := Regex.body?_escape hbody
      exact ⟨Regex.text a, by rw [hs, Regex.text_eq]; simp, rfl, skips_regexText hbody, _, '/', rfl, by decide⟩
    · cases hs
  · cases hs

theorem takes_word_unreserved (hw : IsKeyword w) {v : Text} (hne : v ≠ []) (hv : v.all Text.isWordPart = true)
    (hreserved : Name.isReserved v = false) : (word v).Takes fun t _ => Whole w t :=
  (takes_word v).imp fun {t _} ht => by
    refine whole_of_unreserved hw ?_ ?_ ((Name.isReserved_congr ht).trans hreserved)
    · rintro rfl
      exact hne (List.map_eq_nil_iff.1 ht.symm)
    · rw [← Text.all_isWordPart_lower, ht, Text.all_isWordPart_lower, hv]

theorem takes_boolean (hw : IsKeyword w) : Literal.booleanReader.Takes fun t _ => Whole w t := by
  have htrue : (word "TRUE".toList).Takes fun t _ => Whole w t :=
    takes_word_unreserved hw (by decide) (by decide) (by decide)
  have hfalse : (word "FALSE".toList).Takes fun t _ => Whole w t :=
    takes_word_unreserved hw (by decide) (by decide) (by decide)
  exact Takes.orElse (htrue.bind fun ht => takes_pure (by rwa [List.append_nil]))
    (hfalse.bind fun ht => takes_pure (by rwa [List.append_nil]))

theorem takes_literal (hw : IsKeyword w) : Literal.reader.Takes fun t _ => Whole w t := by
  have hduration : Duration.reader.Takes fun t _ => Whole w t :=
    Takes.convert (takes_durationSpelling.imp fun ht _ _ => whole_of_all hw ht.1 ht.2)
  have hnumeric : Numeric.reader.Takes fun t _ => Whole w t :=
    Takes.convert (takes_numericSpelling.imp fun ht _ _ => whole_of_all hw ht.1 ht.2)
  have hregex : Regex.reader.Takes fun t _ => Whole w t := takes_regex.imp fun ht => ht.2
  exact hduration.map.orElse (hnumeric.map.orElse ((takes_quoted (.inr rfl)).map.orElse
    (hregex.map.orElse (takes_boolean hw).map)))

/-! ## Sums -/

theorem takes_bare : Name.bare.Takes fun t a => t = a ∧ Name.isBare a = true := fun s a rest hs => by
  obtain ⟨rfl, hbare, -⟩ := Name.of_bare hs
  exact ⟨a, rfl, rfl, hbare⟩

theorem whole_of_isBare (hw : IsKeyword w) (h : Name.isBare t = true) : Whole w t := by
  obtain ⟨hstart, hparts, hreserved⟩ := Name.isBare_iff.1 h
  refine whole_of_unreserved hw ?_ hparts hreserved
  rintro rfl
  cases hstart

theorem isMark_of_isBlank (h : t.all Text.isBlank = true) : t.all isMark = true := by
  refine List.all_eq_true.2 fun c hc => ?_
  have hblank := List.all_eq_true.1 h c hc
  simp only [Text.isBlank, Bool.or_eq_true, beq_iff_eq] at hblank
  rcases hblank with ((rfl | rfl) | rfl) | rfl <;> decide

theorem takes_marks : blanks.Takes fun t _ => t.all isMark = true := takes_blanks.imp isMark_of_isBlank

theorem takes_name (hw : IsKeyword w) : Name.reader.Takes fun t _ => Whole w t := by
  have hbare : Name.bare.Takes fun t _ => Whole w t :=
    takes_bare.imp fun ⟨ht, hbare⟩ => ht ▸ whole_of_isBare hw hbare
  exact takes_marks.bind fun ht => (hbare.orElse (takes_quoted (.inl rfl))).imp fun hu => hu.marks ht

theorem takes_sign : Expr.signReader.Takes fun t _ => t.all isMark = true ∧ t ≠ [] :=
  Takes.orElse ((takes_char '+').bind fun ht => takes_pure (by rw [ht]; decide))
    ((takes_char '-').bind fun ht => takes_pure (by rw [ht]; decide))

theorem takes_comma_marks : comma.Takes fun t _ => t.all isMark = true ∧ t ≠ [] := takes_comma.imp <| by
  rintro _ _ ⟨u, rfl, hu⟩
  refine ⟨?_, List.append_ne_nil_of_right_ne_nil u (List.cons_ne_nil _ _)⟩
  rw [List.all_append, isMark_of_isBlank hu]
  decide

theorem Takes.many_tail {α : Type} {p : Reader α} (hp : p.Takes fun t _ => Tail w t) :
    (Reader.many p).Takes fun t _ => Tail w t := hp.many (.inl rfl) fun ht hu => ht.append hu

theorem takes_separated {α : Type} {item : Reader α} (hitem : item.Takes fun t _ => Whole w t) :
    (separated comma item).Takes fun t _ => Whole w t := by
  have hitems : (do comma; item).Takes fun t _ => Tail w t :=
    takes_comma_marks.bind fun ht => hitem.imp fun hu => hu.tail ht.1 ht.2
  refine hitem.bind fun ht => (Takes.many_tail hitems).bind fun hu => takes_pure ?_
  rw [List.append_nil]
  exact ht.append_tail hu

theorem takes_close : (do blanks; char ')').Takes fun t _ => Whole w t ∧ Text.startsWith Text.isWordPart t = false := by
  have hend : Whole w [')'] := ⟨(skips_nil w).cons (by decide), [], ')', rfl, by decide⟩
  exact takes_marks.bind fun ht => (takes_char ')').imp fun hu => by
    rw [hu]
    exact ⟨hend.marks ht, startsWith_marks ht rfl⟩

theorem takes_call (hw : IsKeyword w) {α : Type} {arg : Reader α} {close : Reader Unit} {make : Text → List α → α}
    (harg : arg.Takes fun t _ => Whole w t)
    (hclose : close.Takes fun t _ => Whole w t ∧ Text.startsWith Text.isWordPart t = false) :
    (callWith close make arg).Takes fun t _ => Whole w t := by
  have hitem : (do blanks; arg).Takes fun t _ => Whole w t := takes_marks.bind fun ht => harg.imp fun hu => hu.marks ht
  have hargs : (separated comma (do blanks; arg) <|> pure []).Takes fun t _ => Skips w t :=
    ((takes_separated hitem).imp fun h => h.skips).orElse (takes_pure (skips_nil w))
  refine takes_bare.bind fun ht => takes_marks.bind fun hu => (takes_char '(').bind fun hopen =>
    hargs.bind fun hargs => hclose.bind fun hend => takes_pure ?_
  rw [hopen, List.append_nil]
  have hrest := hend.1.append hargs hend.2
  exact (((hrest.marks (t := ['(']) (by decide)).marks hu).append (whole_of_isBare hw (ht.1 ▸ ht.2)).skips
    (startsWith_marks hu rfl))

theorem takes_chain {α : Type} {p : Reader α} {operator : Reader (α → α → α)} (hp : p.Takes fun t _ => Whole w t)
    (hoperator : operator.Takes fun t _ => t.all isMark = true ∧ t ≠ []) :
    (chain p operator).Takes fun t _ => Whole w t := by
  have hstep : (do let f ← operator; let b ← p; return (f, b) : Reader ((α → α → α) × α)).Takes fun t _ => Tail w t :=
    hoperator.bind fun ht => hp.bind fun hu => takes_pure (by
      rw [List.append_nil]
      exact hu.tail ht.1 ht.2)
  refine hp.bind fun ht => (Takes.many_tail hstep).bind fun hu => takes_pure ?_
  rw [List.append_nil]
  exact ht.append_tail hu

theorem takes_expr (hw : IsKeyword w) : ∀ depth, (Expr.readerWithin depth).Takes fun t _ => Whole w t
  | 0 => takes_refuse
  | depth + 1 => by
    have hterm : (Expr.termReader (Expr.readerWithin depth)).Takes fun t _ => Whole w t :=
      Takes.orElse (Expr.callReader_eq _ ▸ takes_call hw (takes_expr hw depth) takes_close)
        ((takes_literal hw).map.orElse (takes_name hw).map)
    refine takes_chain hterm ?_
    refine takes_marks.bind fun ht => takes_sign.bind fun hu => takes_marks.bind fun hv => takes_pure ⟨?_, ?_⟩
    · rw [List.append_nil, List.all_append, List.all_append, ht, hu.1, hv]
      rfl
    · exact List.append_ne_nil_of_right_ne_nil _ (List.append_ne_nil_of_left_ne_nil hu.2 _)

/-! ## Operands -/

theorem isMark_of_isWhite {c : Char} (h : Text.isWhite c = true) : isMark c = true := by
  have hword : Text.isWordPart c = false := Bool.eq_false_iff.2 fun hword => by
    rw [Text.isWhite_of_isWordPart hword] at h
    cases h
  have hopens : opens c = false := Bool.eq_false_iff.2 fun hopens => by
    simp only [opens, Bool.or_eq_true, beq_iff_eq] at hopens
    rcases hopens with (rfl | rfl) | rfl <;> exact absurd h (by decide)
  rw [isMark, hword, hopens]
  rfl

theorem skips_trimStart : ∀ {t : Text}, Skips w t → Skips w (Text.trimStart t)
  | [], h => h
  | c :: t, h => by
    rw [Text.trimStart, List.dropWhile_cons]
    split
    · rename_i hc
      exact skips_trimStart (h.of_cons (isMark_of_isWhite hc))
    · exact h

/-- Nothing is trimmed off the end of a whole text, and what is trimmed off its front are tokens. -/
theorem skips_trim (ht : Whole w t) : Skips w (Text.trim t) := by
  obtain ⟨u, c, rfl, hc⟩ := ht.last
  have hstart := skips_trimStart ht.skips
  rw [Text.trimStart_append hc] at hstart
  rwa [Text.trim, Text.trimStart_append hc, Text.trimEnd_append hc]

theorem takes_operand (hw : IsKeyword w) : Operand.reader.Takes fun _ o => Skips w o.text := by
  have hexpr : Expr.reader.Takes fun t _ => Whole w t := fun s => takes_expr hw (s.length + 1) s
  exact (takes_withText hexpr).bind fun ⟨hu, ht⟩ => takes_pure (hu ▸ skips_trim ht)

end Scan

end SeriesCache
