import SeriesCache.Query.Reader
/-!
# What a reader takes

A reader that finds a value takes a text off the front (`Reader.Takes`).  One lemma for each way in which
readers are put together reduces a fact about what a reader takes to facts about its parts.
-/
namespace SeriesCache.Reader

variable {α β : Type} {p q : Reader α} {P Q : Text → α → Prop}

/-- The predicate holds of what the reader takes off a text and the value it finds there. -/
def Takes (p : Reader α) (P : Text → α → Prop) : Prop :=
  ∀ s a rest, p s = .found a rest → ∃ t, s = t ++ rest ∧ P t a

theorem Takes.imp (hp : p.Takes P) (h : ∀ {t a}, P t a → Q t a) : p.Takes Q := fun s a rest hs => by
  obtain ⟨t, rfl, ht⟩ := hp s a rest hs
  exact ⟨t, rfl, h ht⟩

theorem Takes.and (hp : p.Takes P) (hq : p.Takes Q) : p.Takes fun t a => P t a ∧ Q t a := fun s a rest hs => by
  obtain ⟨t, ht, hP⟩ := hp s a rest hs
  obtain ⟨u, hu, hQ⟩ := hq s a rest hs
  obtain rfl : t = u := List.append_cancel_right (ht.symm.trans hu)
  exact ⟨t, ht, hP, hQ⟩

/-! ## Readers put together -/

theorem takes_pure {a : α} (h : P [] a) : (pure a : Reader α).Takes P := fun s b rest hs => by
  cases hs
  exact ⟨[], rfl, h⟩

theorem takes_refuse : (refuse : Reader α).Takes P := fun _ _ _ hs => by cases hs

theorem Takes.bind {f : α → Reader β} {R : Text → β → Prop} (hp : p.Takes P)
    (hf : ∀ {t a}, P t a → (f a).Takes fun u b => R (t ++ u) b) : (p >>= f).Takes R := fun s b rest hs => by
  replace hs : Reader.bind p f s = .found b rest := hs
  rw [Reader.bind] at hs
  split at hs
  · rename_i hfound
    obtain ⟨t, rfl, ht⟩ := hp _ _ _ hfound
    obtain ⟨u, rfl, hu⟩ := hf ht _ _ _ hs
    exact ⟨t ++ u, (List.append_assoc ..).symm, hu⟩
  · cases hs
  · cases hs

theorem Takes.map {f : α → β} {R : Text → β → Prop} (hp : p.Takes fun t a => R t (f a)) :
    (f <$> p).Takes R :=
  hp.bind fun ht => takes_pure (by rwa [List.append_nil])

theorem Takes.orElse (hp : p.Takes P) (hq : q.Takes P) : (p <|> q).Takes P := fun s a rest hs => by
  replace hs : Reader.orElse p q s = .found a rest := hs
  rw [Reader.orElse] at hs
  split at hs
  · exact hq s a rest hs
  · exact hp s a rest hs

theorem Takes.must (fault : Fault) (hp : p.Takes P) : (must fault p).Takes P := fun s a rest hs => by
  rw [Reader.must] at hs
  split at hs
  · cases hs
  · exact hp s a rest hs

theorem Takes.convert {fault : Fault} {f : α → Option β} {R : Text → β → Prop}
    (hp : p.Takes fun t a => ∀ b, f a = some b → R t b) : (convert fault p f).Takes R := fun s b rest hs => by
  rw [Reader.convert] at hs
  split at hs
  · rename_i hfound
    obtain ⟨t, rfl, ht⟩ := hp _ _ _ hfound
    split at hs
    · rename_i hb
      cases hs
      exact ⟨t, rfl, ht _ hb⟩
    · cases hs
  · cases hs
  · cases hs

theorem Takes.optional {R : Text → Option α → Prop} (hp : p.Takes fun t a => R t (some a)) (hnone : R [] none) :
    (optional p).Takes R :=
  hp.map.orElse (takes_pure hnone)

theorem Takes.many {R : Text → List α → Prop} (hp : p.Takes P) (hnil : R [] [])
    (hcons : ∀ {t a u as}, P t a → R u as → R (t ++ u) (a :: as)) : (many p).Takes R := by
  have hwithin : ∀ n, (manyWithin n p).Takes R := by
    intro n
    induction n with
    | zero => exact takes_pure hnil
    | succ n ih =>
      refine Takes.orElse (hp.bind fun ht => ih.bind fun hu => takes_pure ?_) (takes_pure hnil)
      rw [List.append_nil]
      exact hcons ht hu
  exact fun s as rest hs => hwithin s.length s as rest hs

theorem Takes.separated {separator : Reader Unit} {P : α → Prop} (hp : p.Takes fun _ a => P a)
    (hseparator : separator.Takes fun _ _ => True) :
    (separated separator p).Takes fun _ as => ∀ a ∈ as, P a := by
  have hitem : (separator >>= fun _ => p).Takes fun _ a => P a := hseparator.bind fun _ => hp
  have hitems : (Reader.many (separator >>= fun _ => p)).Takes fun _ as => ∀ a ∈ as, P a :=
    hitem.many (List.forall_mem_nil _) fun ha has => List.forall_mem_cons.2 ⟨ha, has⟩
  exact hp.bind fun ha => hitems.bind fun has => takes_pure (List.forall_mem_cons.2 ⟨ha, has⟩)

theorem takes_withText (hp : p.Takes P) : (withText p).Takes fun t (u, a) => u = t ∧ P t a :=
  fun s (u, a) rest hs => by
    rw [withText] at hs
    split at hs
    · rename_i hfound
      obtain ⟨t, rfl, ht⟩ := hp _ _ _ hfound
      cases hs
      exact ⟨t, rfl, by simp, ht⟩
    · cases hs
    · cases hs

/-! ## Runs -/

section

variable {f : α → Reader β} {s rest : Text} {a : α} {b : β}

theorem bind_found (h : p s = .found a rest) : (p >>= f) s = f a rest := by
  show Reader.bind p f s = _
  rw [Reader.bind, h]

theorem bind_refused (h : p s = .refused) : (p >>= f) s = .refused := by
  show Reader.bind p f s = _
  rw [Reader.bind, h]

theorem map_found {g : α → β} (h : p s = .found a rest) : (g <$> p) s = .found (g a) rest := bind_found h

theorem map_refused {g : α → β} (h : p s = .refused) : (g <$> p) s = .refused := bind_refused h

theorem orElse_found (h : p s = .found a rest) : (p <|> q) s = .found a rest := by
  show Reader.orElse p q s = _
  rw [Reader.orElse, h]

theorem orElse_refused (h : p s = .refused) : (p <|> q) s = q s := by
  show Reader.orElse p q s = _
  rw [Reader.orElse, h]

theorem must_found {fault : Fault} (h : p s = .found a rest) : must fault p s = .found a rest := by
  rw [must, h]

theorem optional_found (h : p s = .found a rest) : optional p s = .found (some a) rest :=
  orElse_found (map_found h)

theorem optional_refused (h : p s = .refused) : optional p s = .found none s :=
  orElse_refused (map_refused h)

theorem manyWithin_refused (h : p s = .refused) : ∀ n, manyWithin n p s = .found [] s
  | 0 => rfl
  | _ + 1 => orElse_refused (bind_refused h)

theorem bind_eq_found_iff :
    (p >>= f) s = .found b rest ↔ ∃ a r, p s = .found a r ∧ f a r = .found b rest := by
  constructor
  · intro h
    replace h : Reader.bind p f s = .found b rest := h
    rw [Reader.bind] at h
    split at h
    · exact ⟨_, _, ‹_›, h⟩
    · cases h
    · cases h
  · rintro ⟨a, r, ha, hb⟩
    exact (bind_found ha).trans hb

theorem orElse_eq_found_iff :
    (p <|> q) s = .found a rest ↔ p s = .found a rest ∨ p s = .refused ∧ q s = .found a rest := by
  show Reader.orElse p q s = _ ↔ _
  rw [Reader.orElse]
  cases p s <;> simp

theorem map_eq_found_iff {f : α → β} : (f <$> p) s = .found b rest ↔ ∃ a, p s = .found a rest ∧ f a = b := by
  show (p >>= fun a => pure (f a)) s = .found b rest ↔ _
  rw [bind_eq_found_iff]
  constructor
  · rintro ⟨a, r, ha, hb⟩
    cases hb
    exact ⟨a, ha, rfl⟩
  · rintro ⟨a, ha, rfl⟩
    exact ⟨a, rest, ha, rfl⟩

theorem map_eq_refused_iff {f : α → β} : (f <$> p) s = .refused ↔ p s = .refused := by
  show Reader.bind p (fun a => Reader.pure (f a)) s = .refused ↔ _
  rw [Reader.bind]
  cases p s <;> simp [Reader.pure]

theorem must_eq_found_iff {fault : Fault} : must fault p s = .found a rest ↔ p s = .found a rest := by
  rw [must]
  cases p s <;> simp

end

theorem blanks_found (s : Text) : blanks s = .found () (Text.dropBlanks s) := rfl

theorem word_found (w : Text) {rest : Text} (hrest : Text.startsWith Text.isWordPart rest = false) :
    word w (w ++ rest) = .found () rest := by
  rw [word, Text.dropPrefixAnyCase?_eq_some_iff.2 ⟨w, rfl, rfl⟩]
  exact if_neg (by rw [hrest]; exact Bool.false_ne_true)

/-! ## Characters and words -/

theorem takes_exactly (w : Text) : (exactly w).Takes fun t _ => t = w := fun s _ rest hs => by
  rw [exactly] at hs
  split at hs
  · rename_i hdrop
    cases hs
    exact ⟨w, Text.dropPrefix?_eq_some_iff.1 hdrop, rfl⟩
  · cases hs

theorem takes_char (c : Char) : (char c).Takes fun t _ => t = [c] := takes_exactly [c]

theorem takes_blanks : blanks.Takes fun t _ => t.all Text.isBlank = true := fun s _ rest hs => by
  cases hs
  exact ⟨s.takeWhile Text.isBlank, List.takeWhile_append_dropWhile.symm, List.all_takeWhile⟩

theorem takes_someBlanks : someBlanks.Takes fun t _ => t.all Text.isBlank = true := fun s _ rest hs => by
  rw [someBlanks] at hs
  split at hs
  · exact takes_blanks s () rest hs
  · cases hs

theorem takes_digits : digits.Takes fun t a => t = a ∧ a ≠ [] ∧ a.all Char.isDigit = true := fun s a rest hs => by
  replace hs : (if s.takeWhile Char.isDigit = [] then .refused
    else .found (s.takeWhile Char.isDigit) (s.dropWhile Char.isDigit) : Outcome Text) = .found a rest := hs
  split at hs
  · cases hs
  · rename_i hne
    cases hs
    exact ⟨_, List.takeWhile_append_dropWhile.symm, rfl, hne, List.all_takeWhile⟩

theorem takes_word (w : Text) : (word w).Takes fun t _ => Text.lower t = Text.lower w := fun s _ rest hs => by
  rw [word] at hs
  split at hs
  · rename_i hdrop
    rw [wordEnd] at hs
    split at hs
    · cases hs
    · cases hs
      exact Text.dropPrefixAnyCase?_eq_some_iff.1 hdrop
  · cases hs

theorem takes_comma : comma.Takes fun t _ => ∃ u : Text, t = u ++ [','] ∧ u.all Text.isBlank = true :=
  takes_blanks.bind fun hblanks => (takes_char ',').imp fun ht => ⟨_, by rw [ht], hblanks⟩

/-! ## Readers that are never at fault -/

/-- The reader finds something or refuses, and another may try the same text. -/
def NeverFails (p : Reader α) : Prop := ∀ s fault rest, p s ≠ .failed fault rest

section

variable {s rest : Text} {fault : Fault}

theorem bind_eq_failed_iff {f : α → Reader β} : (p >>= f) s = .failed fault rest ↔
    p s = .failed fault rest ∨ ∃ a r, p s = .found a r ∧ f a r = .failed fault rest := by
  show Reader.bind p f s = _ ↔ _
  rw [Reader.bind]
  cases p s <;> simp [and_assoc]

theorem neverFails_pure (a : α) : (pure a : Reader α).NeverFails := fun _ _ _ h => by cases h

theorem NeverFails.bind {f : α → Reader β} (hp : p.NeverFails) (hf : ∀ a, (f a).NeverFails) : (p >>= f).NeverFails :=
  fun s fault rest h => by
    rcases bind_eq_failed_iff.1 h with hs | ⟨a, r, -, hr⟩
    · exact hp s fault rest hs
    · exact hf a r fault rest hr

theorem NeverFails.orElse (hp : p.NeverFails) (hq : q.NeverFails) : (p <|> q).NeverFails := fun s fault rest h => by
  replace h : Reader.orElse p q s = .failed fault rest := h
  rw [Reader.orElse] at h
  split at h
  · exact hq s fault rest h
  · exact hp s fault rest h

theorem NeverFails.optional (hp : p.NeverFails) : (optional p).NeverFails :=
  (hp.bind fun a => neverFails_pure (some a)).orElse (neverFails_pure none)

theorem NeverFails.manyWithin (hp : p.NeverFails) : ∀ n, (manyWithin n p).NeverFails
  | 0 => neverFails_pure []
  | n + 1 => (hp.bind fun a => (hp.manyWithin n).bind fun as => neverFails_pure (a :: as)).orElse (neverFails_pure [])

theorem NeverFails.many (hp : p.NeverFails) : (many p).NeverFails := fun s => hp.manyWithin s.length s

theorem NeverFails.withText (hp : p.NeverFails) : (withText p).NeverFails := fun s fault rest h => by
  rw [Reader.withText] at h
  split at h
  · cases h
  · cases h
  · rename_i hs
    exact hp s _ _ hs

theorem neverFails_exactly (t : Text) : (exactly t).NeverFails := fun s fault rest h => by
  rw [exactly] at h
  split at h <;> cases h

theorem wordEnd_eq_found_iff : wordEnd s = .found () rest ↔ rest = s ∧ Text.startsWith Text.isWordPart s = false := by
  rw [wordEnd]
  cases Text.startsWith Text.isWordPart s <;> simp [eq_comm]

theorem neverFails_wordEnd : wordEnd.NeverFails := fun s fault rest h => by
  rw [wordEnd] at h
  split at h <;> cases h

theorem convert_eq_found_iff {f : α → Option β} {b : β} :
    convert fault p f s = .found b rest ↔ ∃ a, p s = .found a rest ∧ f a = some b := by
  rw [convert]
  constructor
  · intro h
    split at h
    · split at h
      · rename_i hs _ _ hb
        cases h
        exact ⟨_, hs, hb⟩
      · cases h
    · cases h
    · cases h
  · rintro ⟨a, hs, hb⟩
    rw [hs]
    simp only [hb]

/-- What is found has no image, and the fault is at what it is found in. -/
theorem NeverFails.convert_eq_failed_iff (hp : p.NeverFails) {f : α → Option β} {fault' : Fault} :
    convert fault p f s = .failed fault' rest ↔ fault' = fault ∧ rest = s ∧ ∃ a r, p s = .found a r ∧ f a = none := by
  rw [convert]
  constructor
  · intro h
    split at h
    · split at h
      · cases h
      · rename_i hs _ hnone
        cases h
        exact ⟨rfl, rfl, _, _, hs, hnone⟩
    · cases h
    · rename_i hs
      exact absurd hs (hp s _ _)
  · rintro ⟨rfl, rfl, a, r, hs, hnone⟩
    rw [hs]
    simp only [hnone]

end

end SeriesCache.Reader
