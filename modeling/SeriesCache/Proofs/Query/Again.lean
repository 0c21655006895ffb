import SeriesCache.Proofs.Query.Name
import SeriesCache.Proofs.Query.Reader
/-!
# Reading a text again

A reader reads a text again when it finds its value there in front of other texts as well, provided that they do not
go on with it (`Reader.Again`).  One lemma for each way in which readers are put together says what may follow the
whole when it is known what may follow the parts.
-/
namespace SeriesCache

/-- No character of the class stands in front. -/
def Text.Lacks (p : Char → Bool) (s : Text) : Prop := startsWith p s = false

namespace Text

variable {p q : Char → Bool} {s t : Text}

theorem Lacks.imp (h : Lacks q s) (hp : ∀ c, p c = true → q c = true) : Lacks p s := by
  cases s with
  | nil => rfl
  | cons c s => exact Bool.eq_false_iff.2 fun hc => Bool.eq_false_iff.1 h (hp c hc)

theorem lacks_append (ht : Lacks p t) (hs : Lacks p s) : Lacks p (t ++ s) := by
  cases t with
  | nil => exact hs
  | cons c t => exact ht

theorem Lacks.append (ht : Lacks p t) (hne : t ≠ []) (s : Text) : Lacks p (t ++ s) := by
  cases t with
  | nil => exact absurd rfl hne
  | cons c t => exact ht

theorem Lacks.left (h : Lacks p (t ++ s)) : Lacks p t := by
  cases t with
  | nil => rfl
  | cons c t => exact h

theorem lacks_of_startsWith (h : startsWith q t = true) (hp : ∀ c, q c = true → p c = false) : Lacks p t := by
  cases t with
  | nil => rfl
  | cons c t => exact hp c h

theorem lacks_of_blanks (ht : t.all isBlank = true) (hp : [' ', '\t', '\r', '\n'].all (fun c => !p c) = true) :
    Lacks p t := by
  cases t with
  | nil => rfl
  | cons c t =>
    have hc := (Bool.and_eq_true_iff.1 (List.all_cons.symm.trans ht)).1
    simp only [isBlank, Bool.or_eq_true, beq_iff_eq] at hc
    simp only [List.all_cons, List.all_nil, Bool.and_eq_true, Bool.not_eq_true', and_true] at hp
    rcases hc with ((rfl | rfl) | rfl) | rfl
    · exact hp.1
    · exact hp.2.1
    · exact hp.2.2.1
    · exact hp.2.2.2

theorem lacks_of_first {c : Char} (hc : p c = false) (h : startsWith (· == c) t = true) (rest : Text) :
    Lacks p (t ++ rest) := by
  cases t with
  | nil => cases h
  | cons d t =>
    rw [startsWith, beq_iff_eq] at h
    rw [h]
    exact hc

theorem startsWith_imp {p q : Char → Bool} (h : startsWith p t = true) (hp : ∀ c, p c = true → q c = true) :
    startsWith q t = true := by
  cases t with
  | nil => cases h
  | cons c t => exact hp c h

theorem startsWith_of_all {p : Char → Bool} (h : t.all p = true) (hne : t ≠ []) : startsWith p t = true := by
  cases t with
  | nil => exact absurd rfl hne
  | cons c t => exact (Bool.and_eq_true_iff.1 (List.all_cons.symm.trans h)).1

theorem lacks_of_digit {p : Char → Bool} (hp : ∀ n : Fin 10, p (Char.ofNat (48 + n)) = false)
    (h : startsWith Char.isDigit t = true) : Lacks p t := by
  cases t with
  | nil => rfl
  | cons c t => exact forall_digit (P := fun c => p c = false) hp h

theorem take_append_sub (t rest : Text) : (t ++ rest).take ((t ++ rest).length - rest.length) = t := by simp

theorem lacks_dropWhile (p : Char → Bool) (s : Text) : Lacks p (s.dropWhile p) := startsWith_dropWhile p s

theorem isWordStart_toLower (c : Char) : isWordStart c.toLower = isWordStart c :=
  forall_char (P := fun c => isWordStart c.toLower = isWordStart c) (by decide) (fun c h => by rw [h]) c

theorem startsWith_lower (t : Text) : startsWith isWordStart (lower t) = startsWith isWordStart t := by
  cases t with
  | nil => rfl
  | cons c t => exact isWordStart_toLower c

theorem dropBlanks_append (ht : t.all isBlank = true) (hs : Lacks isBlank s) : dropBlanks (t ++ s) = s :=
  dropWhile_append_of_all ht hs

theorem dropBlanks_all (ht : t.all isBlank = true) (s : Text) : dropBlanks (t ++ s) = dropBlanks s :=
  List.dropWhile_append_of_pos (List.all_eq_true.1 ht)

end Text

namespace Reader

open Text (Lacks)

variable {α β : Type} {p q : Reader α} {F G : Text → Prop} {s t u rest : Text} {a : α} {b : β}

theorem withText_eq_found (h : withText p s = .found (t, a) rest) :
    p s = .found a rest ∧ t = s.take (s.length - rest.length) := by
  rw [withText] at h
  split at h
  · cases h
    exact ⟨‹_›, rfl⟩
  · cases h
  · cases h

/-- Where no blank stands in front, the reader takes some text, and the predicate holds of it and what is found. -/
def TakesItem (p : Reader α) (P : Text → α → Prop) : Prop :=
  ∀ s a rest, Lacks Text.isBlank s → p s = .found a rest → ∃ t, s = t ++ rest ∧ t ≠ [] ∧ P t a

/-- The reader finds the value in the text, and takes no more, in front of every text of the kind. -/
def Again (p : Reader α) (F : Text → Prop) (t : Text) (a : α) : Prop :=
  ∀ rest, F rest → p (t ++ rest) = .found a rest

/-! ## Readers put together -/

theorem Again.mono (h : p.Again F t a) (hF : ∀ rest, G rest → F rest) : p.Again G t a :=
  fun rest hrest => h rest (hF rest hrest)

theorem again_pure (F : Text → Prop) (a : α) : (pure a : Reader α).Again F [] a := fun _ _ => rfl

theorem Again.bind {f : α → Reader β} (h : p.Again F t a) (hf : (f a).Again G u b)
    (hF : ∀ rest, G rest → F (u ++ rest)) : (p >>= f).Again G (t ++ u) b := by
  intro rest hrest
  rw [List.append_assoc]
  exact (bind_found (h _ (hF rest hrest))).trans (hf rest hrest)

theorem Again.map (h : p.Again F t a) (f : α → β) : (f <$> p).Again F t (f a) :=
  fun rest hrest => map_found (h rest hrest)

theorem Again.orElse (h : p.Again F t a) (q : Reader α) : (p <|> q).Again F t a :=
  fun rest hrest => orElse_found (h rest hrest)

theorem Again.else (hp : ∀ rest, F rest → p (t ++ rest) = .refused) (h : q.Again F t a) : (p <|> q).Again F t a :=
  fun rest hrest => (orElse_refused (hp rest hrest)).trans (h rest hrest)

theorem Again.must (h : p.Again F t a) (fault : Fault) : (must fault p).Again F t a :=
  fun rest hrest => must_found (h rest hrest)

theorem optional_eq_none (h : optional p s = .found none rest) : rest = s := by
  rcases orElse_eq_found_iff.1 h with hsome | ⟨-, hnone⟩
  · obtain ⟨a, -, ha⟩ := map_eq_found_iff.1 hsome
    cases ha
  · cases hnone
    rfl

theorem Again.optional (h : p.Again F t a) : (optional p).Again F t (some a) := (h.map some).orElse _

theorem again_optional_none (h : ∀ rest, F rest → p rest = .refused) : (optional p).Again F [] none :=
  fun rest hrest => optional_refused (h rest hrest)

theorem Again.convert {f : α → Option β} (h : p.Again F t a) (hf : f a = some b) (fault : Fault) :
    (convert fault p f).Again F t b := by
  intro rest hrest
  rw [Reader.convert, h rest hrest]
  simp only [hf]

theorem Again.withText (h : p.Again F t a) : (withText p).Again F t (t, a) := by
  intro rest hrest
  rw [Reader.withText, h rest hrest]
  simp

theorem TakesItem.and {P Q : Text → α → Prop} (hp : p.TakesItem P) (hq : p.Takes Q) :
    p.TakesItem fun t a => P t a ∧ Q t a := by
  intro s a rest hblank hs
  obtain ⟨t, ht, hne, hP⟩ := hp s a rest hblank hs
  obtain ⟨u, hu, hQ⟩ := hq s a rest hs
  obtain rfl : t = u := List.append_cancel_right (ht.symm.trans hu)
  exact ⟨t, ht, hne, hP, hQ⟩

theorem TakesItem.imp {P Q : Text → α → Prop} (hp : p.TakesItem P) (h : ∀ {t a}, P t a → Q t a) : p.TakesItem Q := by
  intro s a rest hblank hs
  obtain ⟨t, rfl, hne, ht⟩ := hp s a rest hblank hs
  exact ⟨t, rfl, hne, h ht⟩

/-! ## Lists of items -/

theorem takes_many {P : Text → α → Prop} (hp : p.Takes P) : (many p).Takes fun t as =>
    ∃ items : List (Text × α), t = items.flatMap Prod.fst ∧ as = items.map Prod.snd ∧ ∀ x ∈ items, P x.1 x.2 := by
  refine hp.many ⟨[], rfl, rfl, List.forall_mem_nil _⟩ ?_
  rintro t a _ _ ht ⟨items, rfl, rfl, hitems⟩
  exact ⟨(t, a) :: items, rfl, rfl, List.forall_mem_cons.2 ⟨ht, hitems⟩⟩

theorem manyWithin_again {items : List (Text × α)} (hitems : ∀ x ∈ items, p.Again F x.1 x.2)
    (hF : ∀ x ∈ items, ∀ rest, F (x.1 ++ rest)) (hrest : F rest) (hend : p rest = .refused) :
    ∀ n, items.length ≤ n →
      manyWithin n p (items.flatMap Prod.fst ++ rest) = .found (items.map Prod.snd) rest := by
  induction items with
  | nil => exact fun n _ => manyWithin_refused hend n
  | cons x items ih =>
    obtain ⟨hx, hitems⟩ := List.forall_mem_cons.1 hitems
    obtain ⟨-, hFs⟩ := List.forall_mem_cons.1 hF
    intro n hn
    cases n with
    | zero => cases hn
    | succ n =>
      have hnext : F (items.flatMap Prod.fst ++ rest) := by
        cases items with
        | nil => exact hrest
        | cons y items =>
          rw [List.flatMap_cons, List.append_assoc]
          exact hFs y List.mem_cons_self _
      rw [List.flatMap_cons, List.append_assoc]
      exact orElse_found ((bind_found (hx _ hnext)).trans
        (bind_found (ih hitems hFs n (Nat.le_of_succ_le_succ hn))))

/-- **Items are read again** up to where the next one is refused. -/
theorem again_many {items : List (Text × α)} (hitems : ∀ x ∈ items, p.Again F x.1 x.2) (hne : ∀ x ∈ items, x.1 ≠ [])
    (hF : ∀ x ∈ items, ∀ rest, F (x.1 ++ rest)) (hG : ∀ rest, G rest → F rest ∧ p rest = .refused) :
    (many p).Again G (items.flatMap Prod.fst) (items.map Prod.snd) := by
  intro rest hrest
  refine manyWithin_again hitems hF (hG rest hrest).1 (hG rest hrest).2 _ ?_
  have hlength := Text.length_le_flatMap hne
  rw [List.length_append]
  omega

/-! ## Characters and words -/

theorem again_exactly (w : Text) (F : Text → Prop) : (exactly w).Again F w () := by
  intro rest _
  rw [exactly, Text.dropPrefix?_append]

theorem again_char (c : Char) (F : Text → Prop) : (char c).Again F [c] () := again_exactly [c] F

theorem exactly_refused {c : Char} {w : Text} (h : Lacks (· == c) s) : exactly (c :: w) s = .refused := by
  cases s with
  | nil => rfl
  | cons d s =>
    have hc : c ≠ d := fun hc => by
      rw [Lacks, Text.startsWith, hc, beq_self_eq_true] at h
      cases h
    rw [exactly, Text.dropPrefix?, if_neg hc]

theorem char_refused {c : Char} (h : Lacks (· == c) s) : char c s = .refused := exactly_refused h

theorem again_blanks (ht : t.all Text.isBlank = true) : blanks.Again (Lacks Text.isBlank) t () := by
  intro rest hrest
  rw [blanks_found, Text.dropBlanks_append ht hrest]

theorem blanks_eq_found (h : blanks s = .found () rest) :
    ∃ b, s = b ++ rest ∧ b.all Text.isBlank = true ∧ Lacks Text.isBlank rest := by
  obtain ⟨b, hs, hb⟩ := takes_blanks s () rest h
  obtain ⟨-, hdrop⟩ := Outcome.found.inj ((blanks_found s).symm.trans h)
  exact ⟨b, hs, hb, hdrop ▸ Text.lacks_dropWhile _ _⟩

/-- Blanks in front of an item are read again with it. -/
theorem TakesItem.blanks {P : Text → α → Prop} (hp : p.TakesItem P) : (do blanks; p).Takes fun t a =>
    ∃ b u : Text, t = b ++ u ∧ b.all Text.isBlank = true ∧ u ≠ [] ∧ P u a ∧
      ∀ {q : Reader α} {F}, q.Again F u a → (do blanks; q : Reader α).Again F (b ++ u) a := by
  intro s a rest hs
  obtain ⟨_, r, hblanks, hitem⟩ := bind_eq_found_iff.1 hs
  obtain ⟨b, rfl, hb, hr⟩ := blanks_eq_found hblanks
  obtain ⟨u, rfl, hne, hu⟩ := hp r a rest hr hitem
  refine ⟨b ++ u, (List.append_assoc ..).symm, b, u, rfl, hb, hne, hu, fun hq => ?_⟩
  exact (again_blanks hb).bind hq fun rest _ => hr.left.append hne rest

theorem again_someBlanks (ht : t.all Text.isBlank = true) (hne : t ≠ []) :
    someBlanks.Again (Lacks Text.isBlank) t () := by
  intro rest hrest
  have hstart : Text.startsWith Text.isBlank (t ++ rest) = true := by
    cases t with
    | nil => exact absurd rfl hne
    | cons c t => exact (Bool.and_eq_true_iff.1 (List.all_cons.symm.trans ht)).1
  rw [someBlanks, if_pos hstart, Text.dropBlanks_append ht hrest]

theorem someBlanks_eq_found (h : someBlanks s = .found () rest) :
    ∃ b, s = b ++ rest ∧ b.all Text.isBlank = true ∧ b ≠ [] ∧ Lacks Text.isBlank rest := by
  rw [someBlanks] at h
  split at h
  · rename_i hstart
    obtain ⟨b, rfl, hb, hrest⟩ := blanks_eq_found (s := s) h
    refine ⟨b, rfl, hb, ?_, hrest⟩
    rintro rfl
    rw [List.nil_append, hrest] at hstart
    cases hstart
  · cases h

/-- What has to stand behind blanks is refused where it does not, with or without blanks. -/
theorem someBlanks_bind_refused {f : Unit → Reader β} (h : f () (Text.dropBlanks s) = .refused) :
    (someBlanks >>= f) s = .refused := by
  by_cases hstart : Text.startsWith Text.isBlank s = true
  · have hblanks : someBlanks s = .found () (Text.dropBlanks s) := if_pos hstart
    exact (bind_found hblanks).trans h
  · exact bind_refused (if_neg hstart)

theorem again_digits (ht : t.all Char.isDigit = true) (hne : t ≠ []) : digits.Again (Lacks Char.isDigit) t t := by
  intro rest hrest
  rw [digits]
  simp only [Text.takeWhile_append_of_all ht hrest, Text.dropWhile_append_of_all ht hrest]
  exact if_neg hne

theorem again_word {v w : Text} (h : Text.lower w = Text.lower v) : (word v).Again (Lacks Text.isWordPart) w () := by
  intro rest hrest
  rw [word, Text.dropPrefixAnyCase?_eq_some_iff.2 ⟨w, rfl, h⟩]
  exact if_neg (by rw [hrest]; exact Bool.false_ne_true)

theorem word_refused {v : Text} (hv : Text.startsWith Text.isWordStart v = true) (h : Lacks Text.isWordStart s) :
    word v s = .refused := by
  cases v with
  | nil => cases hv
  | cons c v =>
    cases s with
    | nil => rfl
    | cons d s =>
      have hne : c.toLower ≠ d.toLower := fun heq => by
        have hstart : Text.isWordStart c = Text.isWordStart d := by
          rw [← Text.isWordStart_toLower c, heq, Text.isWordStart_toLower]
        rw [Text.startsWith, hstart] at hv
        rw [Lacks, Text.startsWith, hv] at h
        cases h
      rw [word, Text.dropPrefixAnyCase?, if_neg hne]

theorem word_eq_found {v : Text} (h : word v s = .found () rest) :
    ∃ t, s = t ++ rest ∧ Text.lower t = Text.lower v ∧ Lacks Text.isWordPart rest := by
  obtain ⟨t, ht, hlower⟩ := takes_word v s () rest h
  refine ⟨t, ht, hlower, ?_⟩
  rw [word] at h
  split at h
  · rw [wordEnd] at h
    split at h
    · cases h
    · rename_i hend
      cases h
      exact Bool.eq_false_iff.2 hend
  · cases h

/-- A word is found at the front of a text exactly when it is the longest word there. -/
theorem word_append {v w : Text} (hv : v.all Text.isWordPart = true) (hw : w.all Text.isWordPart = true)
    (hrest : Lacks Text.isWordPart rest) :
    word v (w ++ rest) = if Text.sameWord v w then .found () rest else .refused := by
  by_cases hsame : Text.sameWord v w = true
  · rw [if_pos hsame]
    exact again_word (eq_of_beq hsame).symm rest hrest
  · rw [if_neg hsame]
    cases hword : word v (w ++ rest) with
    | refused => rfl
    | failed fault r =>
      rw [word] at hword
      split at hword
      · rw [wordEnd] at hword
        split at hword <;> cases hword
      · cases hword
    | found _ r =>
      refine absurd ?_ hsame
      obtain ⟨t, ht, hlower, hr⟩ := word_eq_found hword
      have hparts : t.all Text.isWordPart = true := by
        rw [← Text.all_isWordPart_lower, hlower, Text.all_isWordPart_lower, hv]
      have htake := congrArg (List.takeWhile Text.isWordPart) ht
      rw [Text.takeWhile_append_of_all hw hrest, Text.takeWhile_append_of_all hparts hr] at htake
      rw [htake, Text.sameWord, hlower]
      exact beq_self_eq_true _

end Reader
end SeriesCache
