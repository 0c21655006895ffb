import SeriesCache.Proofs.Query.Name
import SeriesCache.Proofs.Query.Reader
/-!
# What a printed name, string or expression is read as

A name is printed bare exactly when the reader of bare names takes all of it, and it is then read back where no word goes
on behind it; in quotes a name is read back whatever follows, and so is a string (`Quoted.texts_read_back`).  A regular
expression is read back exactly when every backslash in it stands between two ordinary characters
(`Regex.reads_back_iff`), so not every expression that is free of line breaks and of escaped slashes is
(`Regex.not_reads_back`).
-/
namespace SeriesCache

open Reader

variable {s rest : Text}

/-! ## Names and strings -/

namespace Name

/-- A name is left bare when the reader of bare names takes it as a whole. -/
theorem isBare_iff_bare : isBare s = true ↔ bare s = .found s [] := by
  constructor
  · intro h
    have hread : bare (s ++ []) = .found s [] := bare_append h rfl
    rwa [List.append_nil] at hread
  · intro h
    exact (of_bare h).2.1

theorem quotedReader_bare (h : isBare s = true) (rest : Text) : Quoted.reader '"' (s ++ rest) = .refused := by
  have hstart := (isBare_iff.1 h).1
  cases s with
  | nil => cases hstart
  | cons c s =>
    rw [List.cons_append, Quoted.reader, if_neg]
    rintro rfl
    cases hstart

/-- **A printed name reads back exactly where no word goes on** behind a bare one. -/
theorem reader_text_iff : reader (text s ++ rest) = .found s rest ↔
    (isBare s = true → Text.startsWith Text.isWordPart rest = false) := by
  refine ⟨fun h hbare => ?_, reader_text⟩
  obtain ⟨_, _, hblanks, h⟩ := bind_eq_found_iff.1 h
  cases hblanks
  have hblank : Text.dropBlanks (text s ++ rest) = s ++ rest := by
    rw [text, if_pos hbare]
    have hstart := (isBare_iff.1 hbare).1
    cases s with
    | nil => cases hstart
    | cons c s =>
      exact Text.dropWhile_of_startsWith (Text.isBlank_of_isWordPart (Text.isWordPart_of_isWordStart hstart))
  rw [hblank] at h
  rcases orElse_eq_found_iff.1 h with h | ⟨-, h⟩
  · exact (of_bare h).2.2
  · cases (quotedReader_bare hbare rest).symm.trans h

end Name

/-- **Quotes are airtight.**  They are left off exactly when a name is one bare word; a printed name is read back from in
front of whatever does not go on with such a word, and a quoted string from in front of everything. -/
theorem Quoted.texts_read_back (s rest : Text) :
    (Name.isBare s = true ↔ Name.bare s = .found s []) ∧
      (Name.reader (Name.text s ++ rest) = .found s rest ↔
        (Name.isBare s = true → Text.startsWith Text.isWordPart rest = false)) ∧
      Quoted.reader '\'' (Quoted.text '\'' s ++ rest) = .found s rest :=
  ⟨Name.isBare_iff_bare, Name.reader_text_iff, Quoted.reader_text (by decide) (by decide) s rest⟩

/-! ## Regular expressions -/

namespace Regex

/-- Where each backslash of a text stands between two ordinary characters. -/
def Beside (s : Text) : Prop :=
  ∀ before a c after, s = before ++ a :: '\\' :: c :: after → isOrdinary a = true ∧ isOrdinary c = true

/-- Every backslash stands between two ordinary characters, the slashes around the expression counted, and there is no
line break. -/
structure Legible (r : Text) : Prop where
  noBreak : '\n' ∉ r
  beside : Beside ('/' :: (r ++ ['/']))

theorem beside_cons_cons {a b : Char} (hb : b ≠ '\\') : Beside (a :: b :: s) ↔ Beside (b :: s) := by
  constructor
  · intro h before a' c after hs
    exact h (a :: before) a' c after (by rw [hs]; rfl)
  · intro h before a' c after hs
    cases before with
    | nil => exact absurd (List.cons.inj (List.cons.inj hs).2).1 hb
    | cons d before => exact h before a' c after (List.cons.inj hs).2

theorem ne_of_isOrdinary {c : Char} (hc : isOrdinary c = true) : c ≠ '\\' ∧ c ≠ '\n' := by
  constructor <;> rintro rfl <;> cases hc

theorem beside_backslash {a c : Char} : Beside (a :: '\\' :: c :: s) ↔
    (isOrdinary a = true ∧ isOrdinary c = true) ∧ Beside (c :: s) := by
  constructor
  · intro h
    have hac := h [] a c s rfl
    have hrest : Beside ('\\' :: c :: s) := fun before a' c' after hs =>
      h (a :: before) a' c' after (by rw [hs]; rfl)
    exact ⟨hac, (beside_cons_cons (ne_of_isOrdinary hac.2).1).1 hrest⟩
  · rintro ⟨hac, h⟩ before a' c' after hs
    cases before with
    | nil =>
      cases hs
      exact hac
    | cons d before =>
      exact (beside_cons_cons (ne_of_isOrdinary hac.2).1).2 h before a' c' after (List.cons.inj hs).2

theorem beside_pair (a b : Char) : Beside [a, b] := fun before a' c after hs => by
  have hlength := congrArg List.length hs
  simp only [List.length_cons, List.length_nil, List.length_append] at hlength
  omega

/-! ## One step of reading -/

section

variable {inside : Bool} {c : Char} {r : Text}

theorem body?_slash_iff :
    body? inside ('\\' :: '/' :: s) = some ('/' :: r, rest) ↔ body? false s = some (r, rest) := by
  rw [body?]
  cases body? false s with
  | none => simp
  | some found => simp [Prod.ext_iff]

theorem body?_backslash_iff (hc : c ≠ '/') : body? inside ('\\' :: c :: s) = some ('\\' :: c :: r, rest) ↔
    (inside = true ∧ isOrdinary c = true) ∧ body? true s = some (r, rest) := by
  rw [body?.eq_3 _ _ _ hc]
  split
  · rename_i hordinary
    rw [and_iff_right (Bool.and_eq_true_iff.1 hordinary)]
    cases body? true s with
    | none => simp
    | some found => simp [Prod.ext_iff]
  · rename_i hordinary
    exact iff_of_false (by simp) fun h => hordinary (Bool.and_eq_true_iff.2 h.1)

theorem body?_backslash_backslash : body? inside ('\\' :: '\\' :: s) = none := by
  rw [body?.eq_3 _ _ _ (by decide), if_neg (by simp [isOrdinary])]

theorem body?_ordinary_iff (hslash : c ≠ '\\') (hc : c ≠ '/') : body? inside (c :: s) = some (c :: r, rest) ↔
    c ≠ '\n' ∧ body? true s = some (r, rest) := by
  rw [body?.eq_5 _ _ _ (fun _ h => absurd h hslash) (fun _ _ h => absurd h hslash) hc]
  by_cases hbreak : c = '\n'
  · rw [if_neg (by simp [isOrdinary, hbreak])]
    exact iff_of_false (by simp) fun h => h.1 hbreak
  · rw [if_pos (by simp [isOrdinary, hslash, hc, hbreak]), and_iff_right hbreak]
    cases body? true s with
    | none => simp
    | some found => simp [Prod.ext_iff]

end

/-! ## Whole expressions -/

theorem escape_of_ne {c : Char} (hc : c ≠ '/') : escape c = [c] := if_neg hc

/-- The rest of an expression behind the character `b`, which is no backslash, is read back exactly when it is legible
there.  The induction takes a backslash together with the character behind it, as reading does. -/
theorem body?_escape_iff (rest : Text) : ∀ (r : Text) {b : Char}, b ≠ '\\' →
    (body? (isOrdinary b) (r.flatMap escape ++ '/' :: rest) = some (r, rest) ↔
      '\n' ∉ r ∧ Beside (b :: (r ++ ['/'])))
  | [], b, _ => by
    have hclose : body? (isOrdinary b) ('/' :: rest) = some ([], rest) := body?.eq_4 _ rest
    exact iff_of_true hclose ⟨List.not_mem_nil, beside_pair b '/'⟩
  | c :: r, b, _ => by
    by_cases hslash : c = '\\'
    · subst hslash
      cases r with
      | nil =>
        refine iff_of_false (fun h => ?_) fun h => ?_
        · obtain ⟨_, -, heq⟩ := Option.map_eq_some_iff.1 ((body?.eq_2 _ rest).symm.trans h)
          cases heq
        · cases (beside_backslash.1 h.2).1.2
      | cons d r =>
        by_cases hd : d = '/'
        · subst hd
          refine iff_of_false (fun h => ?_) fun h => ?_
          · cases body?_backslash_backslash.symm.trans h
          · cases (beside_backslash.1 h.2).1.2
        · have hprinted : ('\\' :: d :: r).flatMap escape ++ '/' :: rest =
              '\\' :: d :: (r.flatMap escape ++ '/' :: rest) := by
            rw [List.flatMap_cons, List.flatMap_cons, escape_of_ne hd]
            rfl
          rw [hprinted, body?_backslash_iff hd, List.cons_append, List.cons_append, beside_backslash]
          by_cases hordinary : isOrdinary d = true
          · have hmem : '\n' ∉ '\\' :: d :: r ↔ '\n' ∉ r := by simp [Ne.symm (ne_of_isOrdinary hordinary).2]
            rw [hmem, and_left_comm, ← body?_escape_iff rest r (ne_of_isOrdinary hordinary).1, hordinary]
          · exact iff_of_false (fun h => hordinary h.1.2) fun h => hordinary h.2.1.2
    · rw [List.cons_append, beside_cons_cons hslash]
      by_cases hc : c = '/'
      · subst hc
        have hmem : '\n' ∉ '/' :: r ↔ '\n' ∉ r := by simp
        rw [hmem, ← body?_escape_iff rest r hslash]
        exact body?_slash_iff
      · have hprinted : (c :: r).flatMap escape ++ '/' :: rest = c :: (r.flatMap escape ++ '/' :: rest) := by
          rw [List.flatMap_cons, escape_of_ne hc]
          rfl
        rw [hprinted, body?_ordinary_iff hslash hc]
        by_cases hbreak : c = '\n'
        · exact iff_of_false (fun h => h.1 hbreak) fun h => h.1 (hbreak ▸ List.mem_cons_self)
        · have hordinary : isOrdinary c = true := by simp [isOrdinary, hslash, hc, hbreak]
          have hmem : '\n' ∉ c :: r ↔ '\n' ∉ r := by simp [Ne.symm hbreak]
          rw [hmem, ← body?_escape_iff rest r hslash, hordinary, and_iff_right hbreak]

/-- **An expression is read back exactly when it is legible**, whatever follows. -/
theorem reads_back_iff : reader (text s ++ rest) = .found s rest ↔ Legible s := by
  have hlegible : Legible s ↔ '\n' ∉ s ∧ Beside ('/' :: (s ++ ['/'])) := ⟨fun h => ⟨h.1, h.2⟩, fun h => ⟨h.1, h.2⟩⟩
  rw [hlegible, ← body?_escape_iff rest s (by decide), text_eq, List.append_assoc, List.cons_append,
    List.singleton_append, reader]
  show _ ↔ body? false _ = _
  cases body? false (s.flatMap escape ++ '/' :: rest) with
  | none => simp
  | some found => simp [Prod.ext_iff]

/-- An expression without line breaks, in which no slash stands behind a backslash and no backslash at the end, need not
be read back. -/
theorem not_reads_back : ¬ ∀ s : Text, '\n' ∉ s → s.getLast? ≠ some '\\' →
    (∀ before after, s ≠ before ++ '\\' :: '/' :: after) → ∀ rest, reader (text s ++ rest) = .found s rest := by
  intro h
  have hdigit := h "\\d".toList (by decide) (by decide) ?_ []
  · cases hdigit
  · intro before after hs
    have hslash : '/' ∈ "\\d".toList := by
      rw [hs]
      simp
    exact absurd hslash (by decide)

end Regex
end SeriesCache
