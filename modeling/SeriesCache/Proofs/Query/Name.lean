import SeriesCache.Query.Name
/-!
# Printed names, and what is read of them

Names, quoted texts and regular expressions read back from their printed form whatever follows, bare names
where no word goes on (`Name.reader_text`).  What is read between quotes or slashes does not depend on what
follows either (`Quoted.body?_append`, `Regex.body?_append`).
-/
namespace SeriesCache

/-! ## Words -/

namespace Text

variable {p : Char → Bool} {t rest : Text}

theorem takeWhile_append_of_all (ht : t.all p = true) (hrest : startsWith p rest = false) :
    (t ++ rest).takeWhile p = t := by
  rw [List.takeWhile_append_of_pos (List.all_eq_true.1 ht)]
  cases rest with
  | nil => rw [List.takeWhile_nil, List.append_nil]
  | cons c rest => rw [List.takeWhile_cons_of_neg (by simpa [startsWith] using hrest), List.append_nil]

theorem dropWhile_of_startsWith {p : Char → Bool} {s : Text} (h : startsWith p s = false) : s.dropWhile p = s := by
  cases s with
  | nil => rfl
  | cons c s => exact List.dropWhile_cons_of_neg (by rw [show p c = false from h]; exact Bool.false_ne_true)

theorem dropWhile_append_of_all (ht : t.all p = true) (hrest : startsWith p rest = false) :
    (t ++ rest).dropWhile p = rest := by
  rw [List.dropWhile_append_of_pos (List.all_eq_true.1 ht), dropWhile_of_startsWith hrest]

theorem trimStart_append {c : Char} (hc : isWhite c = false) (t : Text) : trimStart (t ++ [c]) = trimStart t ++ [c] := by
  induction t with
  | nil => exact List.dropWhile_cons_of_neg (by rw [hc]; exact Bool.false_ne_true)
  | cons d t ih =>
    rw [trimStart, trimStart, List.cons_append, List.dropWhile_cons, List.dropWhile_cons]
    split
    · exact ih
    · rfl

theorem trimEnd_append {c : Char} (hc : isWhite c = false) (t : Text) : trimEnd (t ++ [c]) = t ++ [c] := by
  rw [trimEnd, List.reverse_append, List.reverse_singleton, List.singleton_append,
    List.dropWhile_cons_of_neg (by rw [hc]; exact Bool.false_ne_true), List.reverse_cons, List.reverse_reverse]

/-- Whether a text is at its end or goes on with a space. -/
def breaks : Text → Bool
  | [] => true
  | c :: _ => c == ' '

theorem startsWith_of_breaks (h : breaks t = true) (hp : p ' ' = false) : startsWith p t = false := by
  cases t with
  | nil => rfl
  | cons c t =>
    rw [breaks, beq_iff_eq] at h
    rw [startsWith, h, hp]

theorem startsWith_dropWhile (p : Char → Bool) (s : Text) : startsWith p (s.dropWhile p) = false := by
  induction s with
  | nil => rfl
  | cons c s ih =>
    rw [List.dropWhile_cons]
    split
    · exact ih
    · rename_i hc
      exact Bool.eq_false_iff.2 hc

theorem startsWith_append (h : startsWith p t = true) (rest : Text) : startsWith p (t ++ rest) = true := by
  cases t with
  | nil => cases h
  | cons c t => exact h

theorem isWordPart_of_isWordStart {c : Char} (h : isWordStart c = true) : isWordPart c = true := by
  simp only [isWordStart, Bool.or_eq_true, isWordPart, Char.isAlphanum] at h ⊢
  exact h.imp_left .inl

theorem toNat_of_isWordPart {c : Char} (h : isWordPart c = true) : 48 ≤ c.toNat ∧ c.toNat ≤ 122 := by
  replace h : (decide (c.val ≥ 65 ∧ c.val ≤ 90) || (c.val ≥ 97 && c.val ≤ 122) || (c.val ≥ 48 && c.val ≤ 57) ||
    c == '_') = true := h
  simp only [Bool.or_eq_true, Bool.and_eq_true, beq_iff_eq, decide_eq_true_eq, ge_iff_le, UInt32.le_iff_toNat_le] at h
  rcases h with ((h | h) | h) | rfl
  · exact ⟨Nat.le_trans (by decide) h.1, Nat.le_trans h.2 (by decide)⟩
  · exact ⟨Nat.le_trans (by decide) h.1, Nat.le_trans h.2 (by decide)⟩
  · exact ⟨Nat.le_trans (by decide) h.1, Nat.le_trans h.2 (by decide)⟩
  · decide

theorem isWhite_of_isWordPart {c : Char} (h : isWordPart c = true) : isWhite c = false := by
  have hrange := toNat_of_isWordPart h
  simp only [isWhite, isAmong, whiteRanges, List.any_cons, List.any_nil, Bool.or_eq_false_iff,
    Bool.and_eq_false_iff, decide_eq_false_iff_not, and_true]
  omega

theorem isWhite_of_isBlank {c : Char} (h : isBlank c = true) : isWhite c = true := by
  simp only [isBlank, Bool.or_eq_true, beq_iff_eq] at h
  rcases h with ((rfl | rfl) | rfl) | rfl <;> decide

theorem isBlank_of_isWordPart {c : Char} (h : isWordPart c = true) : isBlank c = false :=
  Bool.eq_false_iff.2 fun hc => by
    have hwhite := isWhite_of_isBlank hc
    rw [isWhite_of_isWordPart h] at hwhite
    cases hwhite

/-- A fact about all characters, checked for the capital letters one by one. -/
theorem forall_char {P : Char → Prop} (hupper : ∀ n : Fin 26, P (Char.ofNat (65 + n)))
    (hother : ∀ c : Char, c.toLower = c → P c) (c : Char) : P c := by
  by_cases hc : c.val ≥ 'A'.val ∧ c.val ≤ 'Z'.val
  · have hlow : 65 ≤ c.toNat := UInt32.le_iff_toNat_le.1 hc.1
    have hhigh : c.toNat ≤ 90 := UInt32.le_iff_toNat_le.1 hc.2
    have h := hupper ⟨c.toNat - 65, by omega⟩
    rwa [show 65 + (c.toNat - 65) = c.toNat by omega, Char.ofNat_toNat] at h
  · exact hother c (dif_neg hc)

theorem forall_digit {P : Char → Prop} (hdigit : ∀ n : Fin 10, P (Char.ofNat (48 + n))) {c : Char}
    (hc : c.isDigit = true) : P c := by
  simp only [Char.isDigit, Bool.and_eq_true, decide_eq_true_eq, ge_iff_le, UInt32.le_iff_toNat_le] at hc
  have hlow : 48 ≤ c.toNat := hc.1
  have hhigh : c.toNat ≤ 57 := hc.2
  have h := hdigit ⟨c.toNat - 48, by omega⟩
  rwa [show 48 + (c.toNat - 48) = c.toNat by omega, Char.ofNat_toNat] at h

theorem isWordPart_toLower (c : Char) : isWordPart c.toLower = isWordPart c :=
  forall_char (P := fun c => isWordPart c.toLower = isWordPart c) (by decide) (fun c h => by rw [h]) c

theorem toLower_toLower (c : Char) : c.toLower.toLower = c.toLower :=
  forall_char (P := fun c => c.toLower.toLower = c.toLower) (by decide) (fun c h => by rw [h, h]) c

theorem all_isWordPart_lower (t : Text) : (lower t).all isWordPart = t.all isWordPart := by
  rw [lower, List.all_map]
  exact congrArg t.all (funext isWordPart_toLower)

theorem lower_lower (t : Text) : lower (lower t) = lower t := by
  rw [lower, lower, List.map_map]
  exact List.map_congr_left fun c _ => toLower_toLower c

theorem startsWith_takeWhile_isWordPart {s : Text} (h : startsWith isWordStart s = true) :
    startsWith isWordStart (s.takeWhile isWordPart) = true := by
  cases s with
  | nil => cases h
  | cons c s =>
    rw [List.takeWhile_cons_of_pos (isWordPart_of_isWordStart h)]
    exact h

end Text

/-! ## Quotes -/

namespace Quoted

variable {quote : Char}

theorem body?_cons_of_ne {c : Char} (hquote : c ≠ quote) (hslash : c ≠ '\\') (hline : c ≠ '\n') (s : Text) :
    body? quote (c :: s) = (body? quote s).map fun (t, rest) => (c :: t, rest) := by
  rw [body?.eq_3 _ _ _ fun _ _ h _ => hslash h, if_neg hquote, if_neg (by simp [hslash, hline])]

/-- **A quoted text reads back**, whatever follows. -/
theorem body?_escape (hslash : quote ≠ '\\') (hn : quote ≠ 'n') (rest : Text) : ∀ s : Text,
    body? quote (s.flatMap (escape quote) ++ quote :: rest) = some (s, rest)
  | [] => by
    rw [List.flatMap_nil, List.nil_append, body?.eq_3 _ _ _ fun _ _ h _ => hslash h, if_pos rfl]
  | c :: s => by
    rw [List.flatMap_cons, escape]
    by_cases hline : c = '\n'
    · rw [if_pos hline, hline]
      simp only [List.cons_append, List.nil_append]
      rw [body?, if_neg (by simp [Ne.symm hn]), if_pos rfl, body?_escape hslash hn rest s]
      rfl
    · rw [if_neg hline]
      by_cases hescaped : c = '\\' ∨ c = quote
      · rw [if_pos hescaped]
        simp only [List.cons_append, List.nil_append]
        rw [body?, if_pos hescaped, body?_escape hslash hn rest s]
        rfl
      · obtain ⟨hc, hquote⟩ := not_or.1 hescaped
        rw [if_neg hescaped]
        simp only [List.cons_append, List.nil_append]
        rw [body?_cons_of_ne hquote hc hline, body?_escape hslash hn rest s]
        rfl

theorem reader_text (hslash : quote ≠ '\\') (hn : quote ≠ 'n') (s rest : Text) :
    reader quote (text quote s ++ rest) = .found s rest := by
  rw [text, List.append_assoc, List.cons_append, List.singleton_append, reader, if_pos rfl, body?_escape hslash hn]

/-- What stands between quotes does not depend on what follows them. -/
theorem body?_append (hslash : quote ≠ '\\') {s t rest : Text} (h : body? quote s = some (t, rest)) :
    ∃ u, s = u ++ quote :: rest ∧ ∀ rest', body? quote (u ++ quote :: rest') = some (t, rest') := by
  fun_induction body? quote s generalizing t with
  | case1 => cases h
  | case2 c s hc ih =>
    obtain ⟨⟨t, rest⟩, h, heq⟩ := Option.map_eq_some_iff.1 h
    cases heq
    obtain ⟨u, rfl, hu⟩ := ih h
    refine ⟨'\\' :: c :: u, rfl, fun rest' => ?_⟩
    simp only [List.cons_append]
    rw [body?, if_pos hc, hu]
    rfl
  | case3 s hn ih =>
    obtain ⟨⟨t, rest⟩, h, heq⟩ := Option.map_eq_some_iff.1 h
    cases heq
    obtain ⟨u, rfl, hu⟩ := ih h
    refine ⟨'\\' :: 'n' :: u, rfl, fun rest' => ?_⟩
    simp only [List.cons_append]
    rw [body?, if_neg hn, if_pos rfl, hu]
    rfl
  | case4 => cases h
  | case5 s =>
    cases h
    refine ⟨[], rfl, fun rest' => ?_⟩
    rw [List.nil_append, body?.eq_3 _ _ _ fun _ _ h _ => hslash h, if_pos rfl]
  | case6 => cases h
  | case7 c s hslash hquote hc ih =>
    obtain ⟨⟨t, rest⟩, h, heq⟩ := Option.map_eq_some_iff.1 h
    cases heq
    obtain ⟨u, rfl, hu⟩ := ih h
    refine ⟨c :: u, rfl, fun rest' => ?_⟩
    rw [List.cons_append, body?_cons_of_ne hquote (fun hc' => hc (.inl hc')) (fun hc' => hc (.inr hc')), hu]
    rfl

end Quoted

/-! ## Regular expressions -/

namespace Regex

/-- How a character of an expression is written. -/
def escape (c : Char) : Text := if c = '/' then ['\\', '/'] else [c]

theorem text_eq (r : Text) : text r = '/' :: r.flatMap escape ++ ['/'] := rfl

/-- **An expression that was read has one spelling**, and it reads back from it whatever follows. -/
theorem body?_escape {inside : Bool} {s t rest : Text} (h : body? inside s = some (t, rest)) :
    s = t.flatMap escape ++ '/' :: rest ∧
      ∀ rest', body? inside (t.flatMap escape ++ '/' :: rest') = some (t, rest') := by
  fun_induction body? inside s generalizing t with
  | case1 => cases h
  | case2 inside s ih =>
    obtain ⟨⟨t, rest⟩, h, heq⟩ := Option.map_eq_some_iff.1 h
    cases heq
    obtain ⟨rfl, ht⟩ := ih h
    refine ⟨rfl, fun rest' => ?_⟩
    rw [List.flatMap_cons, escape, if_pos rfl]
    simp only [List.cons_append, List.nil_append]
    rw [body?, ht]
    rfl
  | case3 inside c s hc hordinary ih =>
    obtain ⟨⟨t, rest⟩, h, heq⟩ := Option.map_eq_some_iff.1 h
    cases heq
    obtain ⟨rfl, ht⟩ := ih h
    have hescape : ('\\' :: c :: t).flatMap escape = '\\' :: c :: t.flatMap escape := by
      rw [List.flatMap_cons, List.flatMap_cons, escape, escape, if_neg (by decide), if_neg hc]
      rfl
    rw [hescape]
    refine ⟨rfl, fun rest' => ?_⟩
    simp only [List.cons_append]
    rw [body?.eq_3 _ _ _ hc, if_pos hordinary, ht]
    rfl
  | case4 => cases h
  | case5 inside s =>
    cases h
    exact ⟨rfl, fun rest' => body?.eq_4 inside rest'⟩
  | case6 inside c s hslash hescape hc hordinary ih =>
    obtain ⟨⟨t, rest⟩, h, heq⟩ := Option.map_eq_some_iff.1 h
    cases heq
    obtain ⟨rfl, ht⟩ := ih h
    have hc' : c ≠ '\\' := fun hc' => by rw [hc'] at hordinary; cases hordinary
    rw [List.flatMap_cons, escape, if_neg hc]
    refine ⟨rfl, fun rest' => ?_⟩
    simp only [List.cons_append, List.nil_append]
    rw [body?.eq_5 _ _ _ (fun _ h => absurd h hc') (fun _ _ h => absurd h hc') hc, if_pos hordinary, ht]
    rfl
  | case7 => cases h

end Regex

/-! ## Names -/

namespace Name

theorem isReserved_congr {w n : Text} (h : Text.lower w = Text.lower n) : isReserved w = isReserved n := by
  have hsame : Text.sameWord w = Text.sameWord n := funext fun v => by
    rw [Text.sameWord, Text.sameWord, h]
  rw [isReserved, isReserved, hsame]

theorem isBare_iff {w : Text} : isBare w = true ↔
    Text.startsWith Text.isWordStart w = true ∧ w.all Text.isWordPart = true ∧ isReserved w = false := by
  rw [isBare, Bool.and_eq_true, Bool.and_eq_true, Bool.not_eq_true', and_assoc]

theorem bare_append {w rest : Text} (h : isBare w = true) (hrest : Text.startsWith Text.isWordPart rest = false) :
    bare (w ++ rest) = .found w rest := by
  obtain ⟨hstart, hparts, hreserved⟩ := isBare_iff.1 h
  rw [bare, if_pos (Text.startsWith_append hstart rest)]
  simp only [Text.takeWhile_append_of_all hparts hrest, Text.dropWhile_append_of_all hparts hrest]
  rw [if_neg (by rw [hreserved]; exact Bool.false_ne_true)]

/-- A word that was read is a bare name, and no word goes on behind it. -/
theorem of_bare {s w rest : Text} (h : bare s = .found w rest) :
    s = w ++ rest ∧ isBare w = true ∧ Text.startsWith Text.isWordPart rest = false := by
  rw [bare] at h
  split at h
  · rename_i hstart
    simp only at h
    split at h
    · cases h
    · rename_i hreserved
      cases h
      exact ⟨List.takeWhile_append_dropWhile.symm,
        isBare_iff.2 ⟨Text.startsWith_takeWhile_isWordPart hstart, List.all_takeWhile, by simpa using hreserved⟩,
        Text.startsWith_dropWhile Text.isWordPart s⟩
  · cases h

theorem bare_of_not_start {s : Text} (h : Text.startsWith Text.isWordStart s = false) : bare s = .refused := by
  rw [bare, if_neg (by rw [h]; exact Bool.false_ne_true)]

/-- **A printed name reads back**, where no word goes on behind a bare one. -/
theorem reader_text {n rest : Text} (hrest : isBare n = true → Text.startsWith Text.isWordPart rest = false) :
    reader (text n ++ rest) = .found n rest := by
  have hreader (s : Text) : reader s = (bare <|> Quoted.reader '"') (Text.dropBlanks s) := rfl
  rw [hreader, text]
  split
  · rename_i hbare
    have hstart := (isBare_iff.1 hbare).1
    have hblank : Text.dropBlanks (n ++ rest) = n ++ rest := by
      cases n with
      | nil => cases hstart
      | cons c n =>
        exact Text.dropWhile_of_startsWith (Text.isBlank_of_isWordPart (Text.isWordPart_of_isWordStart hstart))
    rw [hblank]
    show Reader.orElse bare (Quoted.reader '"') (n ++ rest) = _
    rw [Reader.orElse, bare_append hbare (hrest hbare)]
  · have hblank : Text.dropBlanks (Quoted.text '"' n ++ rest) = Quoted.text '"' n ++ rest :=
      List.dropWhile_cons_of_neg (by decide)
    rw [hblank]
    show Reader.orElse bare (Quoted.reader '"') _ = _
    rw [Reader.orElse, bare_of_not_start rfl]
    exact Quoted.reader_text (by decide) (by decide) n rest

end Name
end SeriesCache
