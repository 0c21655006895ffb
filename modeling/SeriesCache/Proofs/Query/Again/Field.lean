import SeriesCache.Proofs.Query.Again.Operand
import SeriesCache.Proofs.Query.Printed
/-!
# Reading fields again

The fields of a statement are read again from their text in front of the word FROM (`Field.takes_list_again`), and the
walk for that word passes over the text as it does over their printed form.
-/
namespace SeriesCache

open Reader Scan
open Text (Lacks)

variable {s t w rest : Text}

/-! ## Names and types -/

/-- A name is read again with the blanks in front of it. -/
theorem Name.takes_reader_again : reader.Takes fun t n => t ≠ [] ∧ reader.Again (Lacks Text.isWordPart) t n := by
  have hblanks {b : Text} (hb : b.all Text.isBlank = true) (s : Text) : reader (b ++ s) = reader s :=
    congrArg (bare <|> Quoted.reader '"') (Text.dropBlanks_all hb s)
  intro s n rest hs
  obtain ⟨b, hs', hb, hr⟩ := blanks_eq_found (blanks_found s)
  rw [hs', hblanks hb] at hs
  obtain ⟨t, ht, hsolo, hagain, -⟩ := takes_again hr hs
  refine ⟨b ++ t, ?_, List.append_ne_nil_of_right_ne_nil b hsolo.ne_nil, fun rest' hrest' => ?_⟩
  · rw [List.append_assoc, ← ht, ← hs']
  · rw [List.append_assoc, hblanks hb]
    exact hagain rest' hrest'

namespace FieldExpr

theorem takes_type_again (hw : IsKeyword w) : typeReader.Takes fun t type =>
    Whole w t ∧ typeReader.Again (Lacks Text.isWordPart) t type := by
  intro s type rest hs
  have hword := word_of_typeReader hs
  have hparts : type.text.all Text.isWordPart = true := by cases type <;> decide
  obtain ⟨t, rfl, hlower, -⟩ := word_eq_found hword
  obtain ⟨t', ht, hwhole⟩ := takes_word_unreserved hw (by cases type <;> decide) hparts
    (by cases type <;> decide) _ () rest hword
  obtain rfl : t = t' := List.append_cancel_right ht
  refine ⟨t, rfl, hwhole, fun rest' hrest' => ?_⟩
  have ht : t.all Text.isWordPart = true := by
    rw [← Text.all_isWordPart_lower, hlower, Text.all_isWordPart_lower, hparts]
  have hword (u : FieldType) : word u.text (t ++ rest') =
      if Text.sameWord u.text type.text then .found () rest' else .refused := by
    have hsame : Text.sameWord u.text t = Text.sameWord u.text type.text := by
      rw [Text.sameWord, Text.sameWord, hlower]
    rw [word_append (by cases u <;> decide) ht hrest', hsame]
  unfold typeReader
  simp only [hword, FieldType.all, List.findSome?_cons]
  cases type <;> rfl

/-- A name's type, with the colons in front. -/
def colonTypeReader : Reader FieldType := do
  exactly "::".toList
  must .noFieldType typeReader

/-- A name's type goes on with no name and with no call. -/
theorem takes_colonType_again (hw : IsKeyword w) : (optional colonTypeReader).Takes fun t type => Tail w t ∧
    (∀ rest, Expr.TermEnd rest → Lacks Text.isWordPart (t ++ rest) ∧ Lacks (· == '(') (Text.dropBlanks (t ++ rest))) ∧
      (optional colonTypeReader).Again Expr.TermEnd t type := by
  have htype : colonTypeReader.Takes fun t type => ∃ u, t = "::".toList ++ u ∧ Whole w u ∧
      colonTypeReader.Again (Lacks Text.isWordPart) t type :=
    (takes_exactly _).bind fun ht => ((takes_type_again hw).must _).imp fun ⟨hwhole, hagain⟩ =>
      ⟨_, by rw [ht], hwhole, ht ▸ (again_exactly _ fun _ => True).bind (hagain.must _) fun _ _ => trivial⟩
  refine (htype.imp ?_).optional ⟨.inl rfl, fun rest hrest => ⟨hrest.lacks_word, hrest.2⟩, ?_⟩
  · rintro _ type ⟨u, rfl, hwhole, hagain⟩
    exact ⟨hwhole.tail (by decide) (by decide), fun rest _ => ⟨rfl, rfl⟩,
      hagain.optional.mono fun _ hrest => hrest.lacks_word⟩
  · exact again_optional_none fun rest hrest => bind_refused (exactly_refused (hrest.1.of_goesOn (by decide)))

/-! ## Expressions -/

theorem takes_whole (hw : IsKeyword w) : ∀ depth, (readerWithin depth).Takes fun t _ => Whole w t
  | 0 => takes_refuse
  | depth + 1 => by
    have hcall : (callReader (readerWithin depth)).Takes fun t _ => Whole w t :=
      takes_call hw (takes_whole hw depth) (takes_close.must _)
    have hwildcard : (do char '*'; return wildcard : Reader FieldExpr).Takes fun t _ => Whole w t :=
      (takes_char '*').bind fun ht => takes_pure (by
        rw [ht]
        exact ⟨(skips_nil w).cons (by decide), [], '*', rfl, by decide⟩)
    have hname : nameReader.Takes fun t _ => Whole w t :=
      (Scan.takes_name hw).bind fun ht => (takes_colonType_again hw).bind fun hu => takes_pure (by
        rw [List.append_nil]
        exact ht.append_tail hu.1)
    exact hcall.orElse (hwildcard.orElse ((takes_literal hw).map.orElse hname))

theorem reader_close : ∀ d r, readerWithin d (')' :: r) = .refused
  | 0, _ => rfl
  | _ + 1, _ => rfl

/-- A literal or a name, which are no calls. -/
def leafReader : Reader FieldExpr := literal <$> Literal.reader <|> nameReader

theorem takes_leaf_again : leafReader.TakesItem fun t e => leafReader.Again Expr.TermEnd t e ∧
    ∀ rest, Expr.TermEnd rest → Lacks (· == '*') (t ++ rest) ∧ ∀ arg, callReader arg (t ++ rest) = .refused := by
  intro s e rest hblank hs
  rcases orElse_eq_found_iff.1 hs with hliteral | ⟨hliteral, hname⟩
  · obtain ⟨l, hl, rfl⟩ := map_eq_found_iff.1 hliteral
    obtain ⟨t, rfl, hagain, hbegins⟩ := Literal.takes_again s l rest hl
    refine ⟨t, rfl, hbegins.solo.ne_nil, ((hagain.mono fun _ hrest => hrest.1).map _).orElse _, fun rest' hrest' => ?_⟩
    exact ⟨hbegins.solo.lacks_star.append hbegins.solo.ne_nil rest', fun arg =>
      hbegins.solo.call_refused hrest'.lacks_word hrest'.2 _⟩
  · obtain ⟨n, r, hn, h⟩ := bind_eq_found_iff.1 hname
    obtain ⟨type, r', htype, h⟩ := bind_eq_found_iff.1 h
    cases h
    obtain ⟨t, rfl, hsolo, hagain, hrefused⟩ := Name.takes_again hblank hn
    obtain ⟨u, rfl, -, hend, htype⟩ := takes_colonType_again isKeyword_from r type _ htype
    have hrefused := hrefused (map_eq_refused_iff.1 hliteral)
    have htail : (do let type ← optional colonTypeReader; return name n type : Reader FieldExpr).Again Expr.TermEnd
        (u ++ []) (name n type) := htype.bind (again_pure _ _) fun _ h => h
    have hname : nameReader.Again Expr.TermEnd (t ++ (u ++ [])) (name n type) := hagain.bind htail fun rest' hrest' => by
      rw [List.append_nil]
      exact (hend rest' hrest').1
    rw [List.append_nil] at hname
    refine ⟨t ++ u, (List.append_assoc ..).symm, List.append_ne_nil_of_left_ne_nil hsolo.ne_nil u,
      .else (fun rest' hrest' => map_refused ?_) hname, fun rest' hrest' => ?_⟩
    · rw [List.append_assoc]
      exact hrefused _ (hend rest' hrest').1
    · rw [List.append_assoc]
      exact ⟨hsolo.lacks_star.append hsolo.ne_nil _, fun arg =>
        hsolo.call_refused (hend rest' hrest').1 (hend rest' hrest').2 _⟩

/-- **A field's expression is read again**, at any depth that is more than its length. -/
theorem takes_again : ∀ depth, (readerWithin depth).TakesItem fun t e =>
    ∀ d, t.length < d → (readerWithin d).Again Expr.TermEnd t e
  | 0 => fun s e rest _ hs => by cases hs
  | depth + 1 => by
    have hclose : (must .openCall (do blanks; char ')')).Takes fun t _ =>
        (must .openCall (do blanks; char ')')).Again (fun _ => True) t () ∧ ∀ rest, AtClose (t ++ rest) :=
      (takes_close_again.imp fun ⟨hagain, hclose⟩ => ⟨hagain.must _, hclose⟩).must _
    have hdepth {t : Text} {e : FieldExpr} (h : ∀ d, t.length ≤ d → (readerWithin (d + 1)).Again Expr.TermEnd t e) :
        ∀ d, t.length < d → (readerWithin d).Again Expr.TermEnd t e
      | 0, hd => by cases hd
      | d + 1, hd => h d (Nat.le_of_lt_succ hd)
    intro s e rest hblank hs
    rcases orElse_eq_found_iff.1 hs with hcall | ⟨-, hs⟩
    · obtain ⟨t, rfl, hne, -, hagain⟩ := takes_call_again hclose (takes_again depth)
        (fun _ hrest => (Expr.SumEnd.of_atNext hrest).1) reader_close s e rest hcall
      exact ⟨t, rfl, hne, hdepth fun d hd => ((hagain d hd).orElse _).mono fun _ _ => trivial⟩
    rcases orElse_eq_found_iff.1 hs with hstar | ⟨-, hleaf⟩
    · obtain ⟨_, r, hchar, hstar⟩ := bind_eq_found_iff.1 hstar
      cases hstar
      obtain ⟨_, rfl, rfl⟩ := takes_char '*' s () _ hchar
      exact ⟨['*'], rfl, by decide, hdepth fun d _ rest _ => rfl⟩
    · obtain ⟨t, rfl, hne, hagain, hother⟩ := takes_leaf_again s e rest hblank hleaf
      refine ⟨t, rfl, hne, hdepth fun d _ => .else (fun rest' hrest' => (hother rest' hrest').2 _)
        (.else (fun rest' hrest' => bind_refused (char_refused (hother rest' hrest').1)) hagain)⟩

end FieldExpr

/-! ## Fields -/

namespace Field

/-- What may stand behind a field: no label goes on there. -/
def End (rest : Text) : Prop := Expr.TermEnd rest ∧ word "AS".toList (Text.dropBlanks rest) = .refused

/-- What may stand behind the fields of a statement. -/
def ListEnd (rest : Text) : Prop := End rest ∧ Lacks (· == ',') (Text.dropBlanks rest)

theorem End.of_atNext (h : AtNext rest) : End rest := by
  refine ⟨(Expr.SumEnd.of_atNext h).1, ?_⟩
  obtain ⟨c, r, hr, hc⟩ := h
  rw [hr]
  rcases hc with rfl | rfl <;> rfl

theorem listEnd_from {b : Text} (hb : b.all Text.isBlank = true) (hne : b ≠ []) (y : Text) :
    ListEnd (b ++ ("FROM".toList ++ ' ' :: y)) := by
  have hdrop : Text.dropBlanks (b ++ ("FROM".toList ++ ' ' :: y)) = "FROM".toList ++ ' ' :: y :=
    Text.dropBlanks_append hb rfl
  refine ⟨⟨⟨(Text.lacks_of_blanks hb (by decide)).append hne _, ?_⟩, ?_⟩, ?_⟩ <;> rw [hdrop] <;> rfl

/-- A field's label, with the word in front. -/
def labelReader : Reader Text := do
  someBlanks; word "AS".toList
  must .noAlias Name.reader

/-- A label is tokens of its own behind blanks. -/
theorem takes_label_again : labelReader.Takes fun t label => Tail "FROM".toList t ∧
    (∀ rest, Expr.TermEnd (t ++ rest)) ∧ labelReader.Again (Lacks Text.isWordPart) t label := by
  intro s label rest hs
  obtain ⟨_, r, hblanks, hs⟩ := bind_eq_found_iff.1 hs
  obtain ⟨_, r', hword, hlabel⟩ := bind_eq_found_iff.1 hs
  obtain ⟨u, rfl, hwhole, hne, hagain⟩ :=
    (Scan.takes_name isKeyword_from).and Name.takes_reader_again _ _ _ (must_eq_found_iff.1 hlabel)
  obtain ⟨v, rfl, hv, hbreak⟩ := word_eq_found hword
  obtain ⟨b, rfl, hb, hbne, hstart⟩ := someBlanks_eq_found hblanks
  have hvne : v ≠ [] := by
    rintro rfl
    cases hv
  have hparts : v.all Text.isWordPart = true := by
    rw [← Text.all_isWordPart_lower, hv]
    decide
  have hfrom : Text.sameWord "FROM".toList v = false := by
    rw [Text.sameWord, hv]
    decide
  have hopen : Lacks (· == '(') v := Text.lacks_of_startsWith (Text.startsWith_of_all hparts hvne) fun c hc => by
    refine beq_eq_false_iff_ne.2 ?_
    rintro rfl
    exact absurd hc (by decide)
  refine ⟨b ++ (v ++ u), by simp only [List.append_assoc], ?_, fun rest' => ⟨?_, ?_⟩, ?_⟩
  · exact (hwhole.append (skips_word hparts hfrom) hbreak.left).tail (isMark_of_isBlank hb) hbne
  · exact ((Text.lacks_of_blanks hb (by decide)).append hbne _).append (List.append_ne_nil_of_left_ne_nil hbne _) _
  · rw [List.append_assoc, List.append_assoc, Text.dropBlanks_append hb (hstart.left.append hvne _)]
    exact hopen.append hvne _
  · refine (again_someBlanks hb hbne).bind ((again_word hv).bind (hagain.must _) ?_) ?_
    · exact fun rest' _ => hbreak.left.append hne rest'
    · intro rest' _
      rw [List.append_assoc]
      exact hstart.left.append hvne _

theorem takes_optionalLabel_again : (optional labelReader).Takes fun t label => Tail "FROM".toList t ∧
    (∀ rest, End rest → Expr.TermEnd (t ++ rest)) ∧ (optional labelReader).Again End t label := by
  refine (takes_label_again.imp ?_).optional ⟨.inl rfl, fun _ hrest => hrest.1, again_optional_none fun _ hrest =>
    someBlanks_bind_refused (bind_refused hrest.2)⟩
  rintro t label ⟨htail, hend, hagain⟩
  exact ⟨htail, fun rest _ => hend rest, hagain.optional.mono fun _ hrest => hrest.1.lacks_word⟩

/-- **A field is read again** with its label. -/
theorem takes_again : reader.Takes fun t f => Whole "FROM".toList t ∧ reader.Again End t f := by
  have hexpr : FieldExpr.reader.TakesItem fun t e => FieldExpr.reader.Again Expr.TermEnd t e ∧ Whole "FROM".toList t := by
    intro s e rest hblank hs
    obtain ⟨t, ht, hne, hagain, hwhole⟩ :=
      (FieldExpr.takes_again _).and (FieldExpr.takes_whole isKeyword_from _) s e rest hblank hs
    refine ⟨t, ht, hne, fun rest' hrest' => hagain _ ?_ rest' hrest', hwhole⟩
    rw [List.length_append]
    omega
  have hitem : (do let expr ← FieldExpr.reader; let label ← optional labelReader; return ⟨expr, label⟩ :
      Reader Field).TakesItem fun t f => Whole "FROM".toList t ∧
        (do let expr ← FieldExpr.reader; let label ← optional labelReader; return ⟨expr, label⟩ :
          Reader Field).Again End t f := by
    intro s f rest hblank hs
    obtain ⟨e, r, hread, h⟩ := bind_eq_found_iff.1 hs
    obtain ⟨label, r', hlabel, h⟩ := bind_eq_found_iff.1 h
    cases h
    obtain ⟨t, rfl, hne, hagain, hwhole⟩ := hexpr s e r hblank hread
    obtain ⟨u, rfl, htail, hend, hlabel⟩ := takes_optionalLabel_again r label _ hlabel
    have hagain' : (do let label ← optional labelReader; return ⟨e, label⟩ : Reader Field).Again End (u ++ []) ⟨e, label⟩ :=
      hlabel.bind (again_pure _ _) fun _ h => h
    rw [List.append_nil] at hagain'
    exact ⟨t ++ u, (List.append_assoc ..).symm, List.append_ne_nil_of_left_ne_nil hne u, hwhole.append_tail htail,
      hagain.bind hagain' hend⟩
  refine hitem.blanks.imp ?_
  rintro _ f ⟨b, u, rfl, hb, -, ⟨hwhole, hagain⟩, hblanks⟩
  exact ⟨hwhole.marks (isMark_of_isBlank hb), hblanks hagain⟩

/-- **The fields of a statement are read again** in front of its FROM. -/
theorem takes_list_again : (do someBlanks; separated comma reader).Takes fun t fields => Skips "FROM".toList t ∧
    (do someBlanks; separated comma reader).Again ListEnd t fields := by
  have hlist : (separated comma reader).Takes fun t fields =>
      Whole "FROM".toList t ∧ (separated comma reader).Again ListEnd t fields := by
    refine (Scan.takes_separated (takes_again.imp fun h => h.1)).and ?_
    refine (takes_separated_again (q := fun _ => reader) (takes_again.imp fun h _ _ => h.2) (fun _ => End.of_atNext)
      fun _ hrest => hrest).imp ?_
    exact fun h => h _ (Nat.lt_succ_self _)
  intro s fields rest hs
  obtain ⟨_, r, hblanks, hread⟩ := bind_eq_found_iff.1 hs
  obtain ⟨t, rfl, hwhole, hagain⟩ := hlist r fields rest hread
  obtain ⟨b, rfl, hb, hne, hstart⟩ := someBlanks_eq_found hblanks
  refine ⟨b ++ t, (List.append_assoc ..).symm, hwhole.skips.marks (isMark_of_isBlank hb),
    (again_someBlanks hb hne).bind hagain fun rest' _ => ?_⟩
  obtain ⟨u, c, rfl, -⟩ := hwhole.last
  exact hstart.left.append (List.append_ne_nil_of_right_ne_nil u (List.cons_ne_nil _ _)) rest'

end Field

end SeriesCache
