import SeriesCache.Proofs.Query.Again.Literal
import SeriesCache.Proofs.Query.Operand
/-!
# Reading operands again

An operand keeps the text it was read from, and is read from it again in front of a text that does not go on with a
sum (`Operand.takesItem_again`).  Calls nest at most as deep as their text is long, so the depth that is allowed for the
second time need not be that of the first.
-/
namespace SeriesCache

open Reader Scan
open Text (Lacks)

variable {s t rest : Text}

/-! ## Names -/

/-- The text starts no call, and is no wildcard. -/
structure Name.Solo (t : Text) : Prop where
  ne_nil : t ≠ []
  lacks_white : Lacks Text.isWhite t
  lacks_star : Lacks (· == '*') t
  word : Lacks Text.isWordStart t ∨ t.all Text.isWordPart = true

theorem Name.solo_of_all (hne : t ≠ []) (ht : t.all Text.isWordPart = true) : Name.Solo t := by
  obtain ⟨c, u, rfl⟩ := List.exists_cons_of_ne_nil hne
  have hc : Text.isWordPart c = true := (Bool.and_eq_true_iff.1 (List.all_cons.symm.trans ht)).1
  have hstar : (c == '*') = false := by
    refine beq_eq_false_iff_ne.2 ?_
    rintro rfl
    exact absurd hc (by decide)
  exact ⟨hne, Text.isWhite_of_isWordPart hc, hstar, .inr ht⟩

theorem Literal.Begins.solo (h : Literal.Begins t) : Name.Solo t := by
  rcases h with h | ⟨hne, ht⟩
  · refine ⟨fun hnil => ?_, ?_, ?_, .inl ?_⟩
    · rw [hnil] at h
      cases h
    · exact Literal.lacks_of_opens (by decide) (by decide) h
    · exact Literal.lacks_of_opens (by decide) (by decide) h
    · exact Literal.lacks_of_opens (by decide) (by decide) h
  · exact Name.solo_of_all hne ht

namespace Name

theorem bare_eq_refused_or {rest : Text} (ht : t.all Text.isWordPart = true) (hrest : Lacks Text.isWordPart rest) :
    bare (t ++ rest) = .refused ∨ bare (t ++ rest) = .found t rest := by
  unfold bare
  simp only [Text.takeWhile_append_of_all ht hrest, Text.dropWhile_append_of_all ht hrest]
  split
  · split
    · exact .inl rfl
    · exact .inr rfl
  · exact .inl rfl

/-- No call is read where no parenthesis follows. -/
theorem Solo.call_refused {β : Type} (h : Solo t) (hrest : Lacks Text.isWordPart rest)
    (hopen : Lacks (· == '(') (Text.dropBlanks rest)) (f : Text → Reader β) :
    (do let function ← bare; blanks; char '('; f function : Reader β) (t ++ rest) = .refused := by
  rcases h.word with hstart | ht
  · exact bind_refused (bare_of_not_start (hstart.append h.ne_nil rest))
  · rcases bare_eq_refused_or ht hrest with hbare | hbare
    · exact bind_refused hbare
    · exact (bind_found hbare).trans ((bind_found (blanks_found rest)).trans (bind_refused (char_refused hopen)))

/-- The text stands alone and reads as the name, where no word goes on behind it; no literal is read in its place when
none is read of `s`. -/
structure Rereads (s t n : Text) : Prop where
  solo : Solo t
  again : reader.Again (Lacks Text.isWordPart) t n
  literal : Literal.reader s = .refused → ∀ rest, Lacks Text.isWordPart rest → Literal.reader (t ++ rest) = .refused

theorem rereads_bare {n : Text} (hbare : isBare n = true) (hend : Lacks Text.isWordPart rest) :
    Rereads (n ++ rest) n n := by
  obtain ⟨hstart, hparts, -⟩ := isBare_iff.1 hbare
  have hne : n ≠ [] := by
    rintro rfl
    cases hstart
  refine ⟨solo_of_all hne hparts, fun rest' hrest' => ?_, fun hliteral rest' hrest' => ?_⟩
  · have hread := reader_text (n := n) fun _ => hrest'
    rwa [text, if_pos hbare] at hread
  · rw [Literal.reader_word hstart hparts hend] at hliteral
    rw [Literal.reader_word hstart hparts hrest']
    split at hliteral
    · cases hliteral
    · split at hliteral
      · cases hliteral
      · rename_i htrue hfalse
        rw [if_neg htrue, if_neg hfalse]

theorem rereads_quoted {n : Text} (hagain : (Quoted.reader '"').Again (fun _ => True) t n)
    (hquote : Text.startsWith (· == '"') t = true) : Rereads s t n := by
  have hlacks {p : Char → Bool} (hp : p '"' = false) (rest : Text) : Lacks p (t ++ rest) :=
    Text.lacks_of_first hp hquote rest
  have hsolo : Solo t := by
    refine ⟨fun hnil => ?_, ?_, ?_, .inl ?_⟩
    · rw [hnil] at hquote
      cases hquote
    · exact List.append_nil t ▸ hlacks (by decide) []
    · exact List.append_nil t ▸ hlacks (by decide) []
    · exact List.append_nil t ▸ hlacks (by decide) []
  refine ⟨hsolo, fun rest _ => ?_, fun _ rest _ => ?_⟩
  · have hblank : Text.dropBlanks (t ++ rest) = t ++ rest :=
      Text.dropWhile_of_startsWith (hlacks (p := Text.isBlank) rfl rest)
    show (bare <|> Quoted.reader '"') (Text.dropBlanks (t ++ rest)) = _
    rw [hblank]
    exact (orElse_refused (bare_of_not_start (hlacks rfl rest))).trans (hagain rest trivial)
  · rw [Literal.reader_eq (hlacks rfl rest)]
    exact map_refused (Literal.booleanReader_refused (hlacks rfl rest))

theorem takes_again {n : Text} (hblank : Lacks Text.isBlank s) (hs : reader s = .found n rest) :
    ∃ t, s = t ++ rest ∧ Rereads s t n := by
  have hreader : reader s = (bare <|> Quoted.reader '"') s := by
    show (bare <|> Quoted.reader '"') (Text.dropBlanks s) = _
    rw [Text.dropBlanks, Text.dropWhile_of_startsWith hblank]
  rw [hreader] at hs
  rcases orElse_eq_found_iff.1 hs with hbare | ⟨-, hquoted⟩
  · obtain ⟨rfl, hbare, hend⟩ := of_bare hbare
    exact ⟨n, rfl, rereads_bare hbare hend⟩
  · obtain ⟨t, rfl, hagain, hquote⟩ := Quoted.takes_again (by decide) s n rest hquoted
    exact ⟨t, rfl, rereads_quoted hagain hquote⟩

end Name

/-! ## Arguments -/

/-- Blanks and the closing parenthesis. -/
def Reader.AtClose (rest : Text) : Prop := ∃ r, Text.dropBlanks rest = ')' :: r

/-- Blanks and a comma or the closing parenthesis, as behind an argument. -/
def Reader.AtNext (rest : Text) : Prop := ∃ c r, Text.dropBlanks rest = c :: r ∧ (c = ',' ∨ c = ')')

namespace Reader

theorem AtClose.atNext (h : AtClose rest) : AtNext rest := by
  obtain ⟨r, hr⟩ := h
  exact ⟨')', r, hr, .inr rfl⟩

theorem atClose_blanks (ht : t.all Text.isBlank = true) (rest : Text) : AtClose (t ++ ')' :: rest) :=
  ⟨rest, Text.dropBlanks_append ht rfl⟩

theorem atNext_comma (ht : t.all Text.isBlank = true) (rest : Text) : AtNext (t ++ ',' :: rest) :=
  ⟨',', rest, Text.dropBlanks_append ht rfl, .inl rfl⟩

theorem again_comma (ht : t.all Text.isBlank = true) (F : Text → Prop) : comma.Again F (t ++ [',']) () :=
  (again_blanks ht).bind (again_char ',' F) fun _ _ => rfl

theorem comma_refused (h : Lacks (· == ',') (Text.dropBlanks rest)) : comma rest = .refused :=
  (bind_found (blanks_found rest)).trans (char_refused h)

theorem takes_close_again : (do blanks; char ')').Takes fun t _ =>
    (do blanks; char ')').Again (fun _ => True) t () ∧ ∀ rest, AtClose (t ++ rest) := by
  refine takes_blanks.bind fun hb => (takes_char ')').imp fun hc => ?_
  rw [hc]
  refine ⟨(again_blanks hb).bind (again_char ')' _) fun _ _ => rfl, fun rest => ?_⟩
  rw [List.append_assoc]
  exact atClose_blanks hb rest

variable {α : Type} {p : Reader α} {q : Nat → Reader α} {F G : Text → Prop}

/-- Items are read again with their commas, when an item may stand in front of one. -/
theorem takes_separated_again (hp : p.Takes fun t a => ∀ d, t.length < d → (q d).Again F t a)
    (hF : ∀ rest, AtNext rest → F rest) (hG : ∀ rest, G rest → F rest ∧ Lacks (· == ',') (Text.dropBlanks rest)) :
    (separated comma p).Takes fun t as => ∀ d, t.length < d → (separated comma (q d)).Again G t as := by
  have hnext : (do comma; p).Takes fun t a => t ≠ [] ∧ (∀ rest, AtNext (t ++ rest)) ∧
      ∀ d, t.length < d → (do comma; q d : Reader α).Again F t a := by
    refine takes_comma.bind fun hcomma => hp.imp fun {u a} hu => ?_
    obtain ⟨b, rfl, hb⟩ := hcomma
    refine ⟨by simp, fun rest => ?_, fun d hd => ?_⟩
    · rw [List.append_assoc, List.append_assoc]
      exact atNext_comma hb _
    · rw [List.length_append] at hd
      exact (again_comma hb fun _ => True).bind (hu d (by omega)) fun _ _ => trivial
  refine hp.bind fun {t a} ht => (takes_many hnext).bind fun {u as} hu => takes_pure ?_
  obtain ⟨items, rfl, rfl, hitems⟩ := hu
  intro d hd
  rw [List.length_append, List.length_append] at hd
  have hmany : (many (do comma; q d)).Again G (items.flatMap Prod.fst) (items.map Prod.snd) := by
    refine again_many (F := F) (fun x hx => (hitems x hx).2.2 d ?_) (fun x hx => (hitems x hx).1)
      (fun x hx rest => hF _ ((hitems x hx).2.1 rest)) fun rest hrest => ⟨(hG rest hrest).1, ?_⟩
    · have : x.1.length ≤ (items.flatMap Prod.fst).length := Text.length_le_flatMap_of_mem hx
      omega
    · exact bind_refused (comma_refused (hG rest hrest).2)
  have htail : (do let as ← many (do comma; q d); return a :: as : Reader (List α)).Again G
      (items.flatMap Prod.fst ++ []) (a :: items.map Prod.snd) := hmany.bind (again_pure _ _) fun _ h => h
  refine (ht d (by omega)).bind htail fun rest hrest => ?_
  rw [List.append_nil]
  cases items with
  | nil => exact (hG rest hrest).1
  | cons x items =>
    rw [List.flatMap_cons, List.append_assoc]
    exact hF _ ((hitems x List.mem_cons_self).2.1 _)

/-- No arguments are read where no item can be. -/
theorem again_noArgs {q : Reader α} (hq : ∀ r, q (')' :: r) = .refused) :
    (separated comma (do blanks; q) <|> pure []).Again AtClose [] [] := by
  refine .else (fun rest hrest => ?_) (again_pure _ _)
  obtain ⟨r, hr⟩ := hrest
  have hrefused : (do blanks; q : Reader α) rest = .refused := by
    refine (bind_found (blanks_found rest)).trans ?_
    rw [hr, hq]
  exact bind_refused hrefused

/-- Arguments are read again, at any depth that is more than their length. -/
theorem takes_args_again (hp : p.TakesItem fun t a => ∀ d, t.length < d → (q d).Again F t a)
    (hF : ∀ rest, AtNext rest → F rest) (hq : ∀ d r, q d (')' :: r) = .refused) :
    (separated comma (do blanks; p) <|> pure []).Takes fun t as => ∀ d, t.length < d →
      (separated comma (do blanks; q d) <|> pure []).Again AtClose t as := by
  have hitem : (do blanks; p).Takes fun t a => ∀ d, t.length < d → (do blanks; q d : Reader α).Again F t a := by
    refine hp.blanks.imp ?_
    rintro _ a ⟨b, u, rfl, -, -, hu, hblanks⟩ d hd
    rw [List.length_append] at hd
    exact hblanks (hu d (by omega))
  have hclose (rest : Text) (hrest : AtClose rest) : F rest ∧ Lacks (· == ',') (Text.dropBlanks rest) := by
    obtain ⟨r, hr⟩ := id hrest
    exact ⟨hF rest hrest.atNext, by rw [hr]; rfl⟩
  exact Takes.orElse ((takes_separated_again hitem hF hclose).imp fun h d hd => (h d hd).orElse _)
    (takes_pure fun d _ => again_noArgs (hq d))

theorem takes_bare_again : Name.bare.Takes fun t n => t ≠ [] ∧ Lacks Text.isWhite t ∧
    Name.bare.Again (Lacks Text.isWordPart) t n := by
  refine takes_bare.imp fun ⟨ht, hbare⟩ => ?_
  obtain ⟨hstart, hparts, -⟩ := Name.isBare_iff.1 hbare
  subst ht
  have hsolo := Name.solo_of_all (t := _) (fun hnil => by rw [hnil] at hstart; cases hstart) hparts
  exact ⟨hsolo.ne_nil, hsolo.lacks_white, fun rest hrest => Name.bare_append hbare hrest⟩

/-- **A call is read again**, whatever follows, at any depth that its length does not exceed. -/
theorem takes_call_again {close : Reader Unit} {make : Text → List α → α}
    (hclose : close.Takes fun t _ => close.Again (fun _ => True) t () ∧ ∀ rest, AtClose (t ++ rest))
    (hp : p.TakesItem fun t a => ∀ d, t.length < d → (q d).Again F t a) (hF : ∀ rest, AtNext rest → F rest)
    (hq : ∀ d r, q d (')' :: r) = .refused) : (callWith close make p).Takes fun t a => t ≠ [] ∧ Lacks Text.isWhite t ∧
      ∀ d, t.length ≤ d → (callWith close make (q d)).Again (fun _ => True) t a := by
  have hargs := takes_args_again hp hF hq
  refine takes_bare_again.bind fun {f _} ⟨hne, hwhite, hf⟩ => takes_blanks.bind fun {b _} hb => (takes_char '(').bind
    fun {o _} ho => hargs.bind fun {as _} has => hclose.bind fun {c _} hc => takes_pure
      ⟨List.append_ne_nil_of_left_ne_nil hne _, hwhite.append hne _, fun d hd => ?_⟩
  rw [ho] at hd ⊢
  simp only [List.length_append, List.length_cons, List.length_nil] at hd
  refine hf.bind ((again_blanks hb).bind ((again_char '(' fun _ => True).bind ((has d (by omega)).bind
    (hc.1.bind (again_pure _ _) fun _ _ => trivial) ?_) ?_) ?_) ?_
  · intro rest _
    rw [List.append_assoc]
    exact hc.2 _
  · exact fun _ _ => trivial
  · exact fun rest _ => rfl
  · intro rest _
    rw [List.append_assoc]
    exact Text.lacks_append (Text.lacks_of_blanks hb (by decide)) rfl

end Reader

/-! ## Sums -/

namespace Expr

/-- What may stand behind a term: no call goes on there. -/
def TermEnd (rest : Text) : Prop := Lacks Text.goesOn rest ∧ Lacks (· == '(') (Text.dropBlanks rest)

/-- What may stand behind a sum. -/
def SumEnd (rest : Text) : Prop := TermEnd rest ∧ Lacks (fun c => c == '+' || c == '-') (Text.dropBlanks rest)

/-- Behind blanks, only what stands there tells whether a term has its end. -/
theorem termEnd_of_dropBlanks {c : Char} {r : Text} (h : Text.dropBlanks rest = c :: r)
    (hc : Text.goesOn c = false) : TermEnd rest := by
  refine ⟨?_, ?_⟩
  · cases rest with
    | nil => rfl
    | cons d rest =>
      by_cases hd : Text.isBlank d = true
      · simp [Lacks, Text.startsWith, Text.goesOn, hd]
      · rw [Text.dropBlanks, List.dropWhile_cons_of_neg hd] at h
        cases h
        exact hc
  · rw [h]
    refine beq_eq_false_iff_ne.2 ?_
    rintro rfl
    exact absurd hc (by decide)

theorem SumEnd.of_atNext (h : AtNext rest) : SumEnd rest := by
  obtain ⟨c, r, hr, hc⟩ := h
  refine ⟨termEnd_of_dropBlanks hr ?_, ?_⟩
  · rcases hc with rfl | rfl <;> decide
  · rw [hr]
    rcases hc with rfl | rfl <;> rfl

variable {p : Reader Expr} {q : Nat → Reader Expr}

theorem TermEnd.lacks_word (h : TermEnd rest) : Lacks Text.isWordPart rest := h.1.of_goesOn (by decide)

/-- A literal that is read again is read again as a term: it starts no call. -/
theorem again_literal {l : Literal} (h : Literal.reader.Again (Lacks Text.goesOn) t l) (p : Reader Expr) :
    (termReader p).Again TermEnd t (literal l) := by
  obtain ⟨u, hu, -, hbegins⟩ := Literal.takes_again _ l [] (h [] rfl)
  rw [List.append_nil, List.append_nil] at hu
  subst hu
  exact .else (fun _ hrest => hbegins.solo.call_refused hrest.lacks_word hrest.2 _)
    (((h.mono fun _ hrest => hrest.1).map _).orElse _)

theorem takes_term_again (hp : p.TakesItem fun t e => Lacks Text.isWhite t ∧ ∀ d, t.length < d → (q d).Again SumEnd t e)
    (hq : ∀ d r, q d (')' :: r) = .refused) : (termReader p).TakesItem fun t e =>
      Lacks Text.isWhite t ∧ ∀ d, t.length ≤ d → (termReader (q d)).Again TermEnd t e := by
  intro s e rest hblank hs
  rcases orElse_eq_found_iff.1 hs with hcall | ⟨-, hs⟩
  · rw [callReader_eq] at hcall
    obtain ⟨t, rfl, hne, hwhite, hagain⟩ :=
      takes_call_again takes_close_again (hp.imp fun h => h.2) (fun _ => SumEnd.of_atNext) hq s e rest hcall
    exact ⟨t, rfl, hne, hwhite, fun d hd =>
      ((callReader_eq (q d) ▸ hagain d hd).orElse _).mono fun _ _ => trivial⟩
  rcases orElse_eq_found_iff.1 hs with hliteral | ⟨hliteral, hname⟩
  · obtain ⟨l, hl, rfl⟩ := map_eq_found_iff.1 hliteral
    obtain ⟨t, rfl, hagain, hbegins⟩ := Literal.takes_again s l rest hl
    exact ⟨t, rfl, hbegins.solo.ne_nil, hbegins.solo.lacks_white, fun d _ => again_literal hagain (q d)⟩
  · obtain ⟨n, hn, rfl⟩ := map_eq_found_iff.1 hname
    obtain ⟨t, rfl, hsolo, hagain, hrefused⟩ := Name.takes_again hblank hn
    have hrefused := hrefused (map_eq_refused_iff.1 hliteral)
    refine ⟨t, rfl, hsolo.ne_nil, hsolo.lacks_white, fun d _ => ?_⟩
    exact .else (fun _ hrest => hsolo.call_refused hrest.lacks_word hrest.2 _)
      (.else (fun rest' hrest => map_refused (hrefused rest' hrest.lacks_word))
        ((hagain.mono fun _ hrest => hrest.lacks_word).map _))

/-- A sign between two terms, with the blanks around it. -/
def operatorReader : Reader (Expr → Expr → Expr) := do
  blanks
  let sign ← signReader
  blanks
  return fun a b => sum a sign b

theorem takes_sign_again : signReader.Takes fun t sign =>
    signReader.Again (fun _ => True) t sign ∧ Text.startsWith (fun c => c == '+' || c == '-') t = true := by
  refine .orElse ((takes_char '+').bind fun ht => takes_pure ?_) ((takes_char '-').bind fun ht => takes_pure ?_)
  · rw [ht]
    exact ⟨((again_char '+' fun _ => True).bind (again_pure _ Sign.plus) fun _ _ => trivial).orElse _, rfl⟩
  · rw [ht]
    exact ⟨.else (fun _ _ => rfl) ((again_char '-' fun _ => True).bind (again_pure _ Sign.minus) fun _ _ => trivial), rfl⟩

theorem takes_operator_again {f : Expr → Expr → Expr} (hs : operatorReader s = .found f rest) :
    ∃ t, s = t ++ rest ∧ t ≠ [] ∧ (∀ rest', TermEnd (t ++ rest')) ∧ Lacks Text.isBlank rest ∧
      operatorReader.Again (Lacks Text.isBlank) t f := by
  obtain ⟨_, r, hbefore, h⟩ := bind_eq_found_iff.1 hs
  obtain ⟨sign, r', hread, h⟩ := bind_eq_found_iff.1 h
  obtain ⟨_, r'', hbehind, h⟩ := bind_eq_found_iff.1 h
  cases h
  obtain ⟨v, rfl, hv, hr⟩ := blanks_eq_found hbehind
  obtain ⟨u, rfl, hsign, hstart⟩ := takes_sign_again _ _ _ hread
  obtain ⟨b, rfl, hb, -⟩ := blanks_eq_found hbefore
  obtain ⟨c, u, rfl⟩ : ∃ c u', u = c :: u' := by
    cases u with
    | nil => cases hstart
    | cons c u => exact ⟨c, u, rfl⟩
  have hc : Text.isBlank c = false ∧ Text.goesOn c = false := by
    simp only [Text.startsWith, Bool.or_eq_true, beq_iff_eq] at hstart
    rcases hstart with rfl | rfl <;> decide
  refine ⟨b ++ (c :: u ++ (v ++ [])), by simp, by simp, fun rest' => ?_, hr, ?_⟩
  · refine termEnd_of_dropBlanks (c := c) (r := u ++ (v ++ []) ++ rest') ?_ hc.2
    rw [List.append_assoc]
    exact Text.dropBlanks_append hb (Text.lacks_cons hc.1 _)
  · refine (again_blanks hb).bind (hsign.bind ((again_blanks hv).bind (again_pure _ _) fun _ h => h) ?_) ?_
    · exact fun _ _ => trivial
    · exact fun rest' _ => Text.lacks_cons hc.1 _

/-- A sign and the term behind it. -/
def stepReader (p : Reader Expr) : Reader ((Expr → Expr → Expr) × Expr) := do
  let f ← operatorReader
  let b ← p
  return (f, b)

theorem takes_step_again (hp : p.TakesItem fun t e => Lacks Text.isWhite t ∧
    ∀ d, t.length ≤ d → (q d).Again TermEnd t e) : (stepReader p).Takes fun t x => t ≠ [] ∧
      (∀ rest, TermEnd (t ++ rest)) ∧ ∀ d, t.length ≤ d → (stepReader (q d)).Again TermEnd t x := by
  intro s x rest hs
  obtain ⟨f, r, hoperator, h⟩ := bind_eq_found_iff.1 hs
  obtain ⟨b, r', hb, h⟩ := bind_eq_found_iff.1 h
  cases h
  obtain ⟨t, rfl, hne, hend, hblank, hagain⟩ := takes_operator_again hoperator
  obtain ⟨u, rfl, hune, hwhite, hu⟩ := hp r b _ hblank hb
  refine ⟨t ++ (u ++ []), by simp, by simp [hne], fun rest => ?_, fun d hd => ?_⟩
  · rw [List.append_assoc]
    exact hend _
  · rw [List.append_nil, List.length_append] at hd
    have hterm : (do let b ← q d; return (f, b) : Reader ((Expr → Expr → Expr) × Expr)).Again TermEnd (u ++ []) (f, b) :=
      (hu d (by omega)).bind (again_pure _ _) fun _ h => h
    refine hagain.bind hterm fun rest _ => ?_
    have hlacks : Lacks Text.isBlank u := hwhite.imp fun _ => Text.isWhite_of_isBlank
    rw [List.append_nil]
    exact hlacks.append hune rest

theorem step_refused {p : Reader Expr} (h : SumEnd rest) : stepReader p rest = .refused := by
  have hrefused {c : Char} (hc : (c == '+' || c == '-') = true) : char c (Text.dropBlanks rest) = .refused :=
    char_refused (h.2.imp fun d hd => by rw [beq_iff_eq.1 hd]; exact hc)
  have hsign : signReader (Text.dropBlanks rest) = .refused :=
    (orElse_refused (bind_refused (hrefused rfl))).trans (bind_refused (hrefused rfl))
  exact bind_refused ((bind_found (blanks_found rest)).trans (bind_refused hsign))

theorem takes_chain_again (hp : p.TakesItem fun t e => Lacks Text.isWhite t ∧
    ∀ d, t.length ≤ d → (q d).Again TermEnd t e) : (chain p operatorReader).TakesItem fun t e =>
      Lacks Text.isWhite t ∧ ∀ d, t.length ≤ d → (chain (q d) operatorReader).Again SumEnd t e := by
  intro s e rest hblank hs
  obtain ⟨a, r, ha, h⟩ := bind_eq_found_iff.1 hs
  obtain ⟨steps, r', hmany, h⟩ := bind_eq_found_iff.1 h
  cases h
  obtain ⟨t, rfl, hne, hwhite, ht⟩ := hp s a r hblank ha
  obtain ⟨u, rfl, items, rfl, rfl, hitems⟩ := takes_many (takes_step_again hp) _ _ _ hmany
  refine ⟨t ++ (items.flatMap Prod.fst ++ []), by simp, by simp [hne], hwhite.append hne _, fun d hd => ?_⟩
  rw [List.append_nil, List.length_append] at hd
  have hagain : (many (stepReader (q d))).Again SumEnd (items.flatMap Prod.fst) (items.map Prod.snd) := by
    refine again_many (F := TermEnd) (fun x hx => (hitems x hx).2.2 d ?_) (fun x hx => (hitems x hx).1)
      (fun x hx => (hitems x hx).2.1) fun rest hrest => ⟨hrest.1, step_refused hrest⟩
    have : x.1.length ≤ (items.flatMap Prod.fst).length := Text.length_le_flatMap_of_mem hx
    omega
  have htail : (do let steps ← many (stepReader (q d))
                   return steps.foldl (fun a (f, b) => f a b) a : Reader Expr).Again SumEnd
      (items.flatMap Prod.fst ++ []) ((items.map Prod.snd).foldl (fun a (f, b) => f a b) a) :=
    hagain.bind (again_pure _ _) fun _ h => h
  refine (ht d (by omega)).bind htail fun rest hrest => ?_
  rw [List.append_nil]
  cases items with
  | nil => exact hrest.1
  | cons x items =>
    rw [List.flatMap_cons, List.append_assoc]
    exact (hitems x List.mem_cons_self).2.1 _

theorem reader_close : ∀ d r, readerWithin d (')' :: r) = .refused
  | 0, _ => rfl
  | _ + 1, _ => bind_refused rfl

/-- **A sum is read again**, at any depth that is more than its length. -/
theorem takes_again : ∀ depth, (readerWithin depth).TakesItem fun t e =>
    Lacks Text.isWhite t ∧ ∀ d, t.length < d → (readerWithin d).Again SumEnd t e
  | 0 => fun s e rest _ hs => by cases hs
  | depth + 1 => by
    have hterm := takes_term_again (takes_again depth) reader_close
    refine (takes_chain_again hterm).imp fun {t e} ⟨hwhite, hagain⟩ => ⟨hwhite, fun d hd => ?_⟩
    cases d with
    | zero => cases hd
    | succ d => exact hagain d (Nat.le_of_lt_succ hd)

end Expr

namespace Operand

theorem trim_eq {w : Text} (hwhite : Lacks Text.isWhite t) (ht : Whole w t) : Text.trim t = t := by
  obtain ⟨u, c, rfl, hc⟩ := ht.last
  rw [Text.trim, Text.trimStart, Text.dropWhile_of_startsWith hwhite, Text.trimEnd_append hc]

/-- **An operand is read again** from its text. -/
theorem takesItem_again : reader.TakesItem fun t o =>
    t = o.text ∧ Lacks Text.isBlank t ∧ reader.Again Expr.SumEnd t o := by
  intro s o rest hblank hs
  obtain ⟨⟨u, e⟩, r, htext, h⟩ := bind_eq_found_iff.1 hs
  cases h
  obtain ⟨hexpr, hu⟩ := withText_eq_found htext
  obtain ⟨t, ht, hne, ⟨hwhite, hagain⟩, hwhole⟩ :=
    (Expr.takes_again _).and (takes_expr isKeyword_from _) s e rest hblank hexpr
  have hread : Expr.reader.Again Expr.SumEnd t e := fun rest' hrest' => by
    refine hagain _ ?_ rest' hrest'
    rw [List.length_append]
    omega
  rw [ht, Text.take_append_sub] at hu
  have htrim : Text.trim u = t := by rw [hu, trim_eq hwhite hwhole]
  have hoperand : reader.Again Expr.SumEnd (t ++ []) ⟨Text.trim t, e⟩ :=
    hread.withText.bind (again_pure _ _) fun _ h => h
  rw [List.append_nil, trim_eq hwhite hwhole] at hoperand
  refine ⟨t, ht, hne, htrim.symm, hwhite.imp fun _ => Text.isWhite_of_isBlank, ?_⟩
  rw [htrim]
  exact hoperand

end Operand

end SeriesCache
