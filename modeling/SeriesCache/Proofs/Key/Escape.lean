import SeriesCache.Key.Escape
/-!
# Escaped texts are taken apart where they were put together

A text is `Without` a class of characters when none of them stands in it unescaped and it does not end
inside an escape.  Such texts can be joined, and a cut, a split or a sequence of groups finds exactly
the separators that were put between them (`cut?_append`, `split_join`, `groups?_flatMap`).  An escaped
name is without every special character (`without_escape`) and reads back (`unescape_escape`).
-/
namespace SeriesCache.Escaped

/-! ## Texts without a class of characters -/

/-- No character of the class stands in the text unescaped, and no escape is open at its end. -/
inductive Without (p : Char → Bool) : Text → Prop where
  | nil : Without p []
  | escaped (c : Char) {s : Text} : Without p s → Without p ('\\' :: c :: s)
  | plain {c : Char} {s : Text} : c ≠ '\\' → p c = false → Without p s → Without p (c :: s)

theorem Without.append {p : Char → Bool} {s t : Text} (hs : Without p s) (ht : Without p t) :
    Without p (s ++ t) := by
  induction hs with
  | nil => exact ht
  | escaped c _ ih => exact .escaped c ih
  | plain hc hp _ ih => exact .plain hc hp ih

theorem Without.mono {p q : Char → Bool} (h : ∀ c, q c = true → p c = true) {s : Text}
    (hs : Without p s) : Without q s := by
  induction hs with
  | nil => exact .nil
  | escaped c _ ih => exact .escaped c ih
  | plain hc hp _ ih =>
    refine .plain hc ?_ ih
    rw [Bool.eq_false_iff]
    intro hq
    rw [h _ hq] at hp
    cases hp

theorem Without.flatMap {α : Type} {p : Char → Bool} {f : α → Text} :
    ∀ {items : List α}, (∀ a ∈ items, Without p (f a)) → Without p (items.flatMap f)
  | [], _ => .nil
  | a :: items, h => by
    rw [List.flatMap_cons]
    exact (h a List.mem_cons_self).append (Without.flatMap fun b hb => h b (List.mem_cons_of_mem a hb))

theorem Without.join {p : Char → Bool} {sep : Text} (hsep : Without p sep) :
    ∀ {parts : List Text}, (∀ s ∈ parts, Without p s) → Without p (Text.join sep parts)
  | [], _ => .nil
  | [s], h => h s List.mem_cons_self
  | s :: t :: parts, h => by
    rw [Text.join]
    refine ((h s List.mem_cons_self).append hsep).append ?_
    exact Without.join hsep fun u hu => h u (List.mem_cons_of_mem s hu)

/-- A text in which no character is of the class or a backslash. -/
theorem Without.of_all {p : Char → Bool} : ∀ {s : Text}, (s.all fun c => c != '\\' && !p c) = true →
    Without p s
  | [], _ => .nil
  | c :: s, h => by
    simp only [List.all_cons, Bool.and_eq_true, bne_iff_ne, Bool.not_eq_eq_eq_not, Bool.not_true] at h
    exact .plain h.1.1 h.1.2 (Without.of_all h.2)

/-! ## Escaping -/

theorem isSpecial_backslash (place : Place) : isSpecial place '\\' = true := rfl

theorem isSpecial_of_isDelimiter {place : Place} {c : Char} (h : isDelimiter c = true) :
    isSpecial place c = true := by
  simp [isSpecial, h]

theorem isSpecial_of_isOperatorChar {place : Place} {c : Char} (h : isOperatorChar c = true) :
    isSpecial place c = true := by
  simp [isSpecial, h]

theorem escape_cons (place : Place) (c : Char) (s : Text) :
    escape place (c :: s) = escapeChar place c ++ escape place s := List.flatMap_cons

/-- **An escaped text is without all special characters.** -/
theorem without_escape {place : Place} {p : Char → Bool}
    (h : ∀ c, p c = true → isSpecial place c = true) (s : Text) : Without p (escape place s) := by
  refine Without.flatMap fun c _ => ?_
  unfold escapeChar
  split
  · exact .escaped c .nil
  · rename_i hc
    refine .plain (fun he => hc (he ▸ isSpecial_backslash place)) ?_ .nil
    rw [Bool.eq_false_iff]
    exact fun hp => hc (h c hp)

theorem unescape_cons_of_ne {c : Char} (h : c ≠ '\\') (s : Text) :
    unescape (c :: s) = c :: unescape s := by
  rw [unescape]
  exact fun _ _ he => absurd he h

/-- **What was escaped reads back.** -/
@[simp] theorem unescape_escape (place : Place) (s : Text) : unescape (escape place s) = s := by
  induction s with
  | nil => rfl
  | cons c s ih =>
    rw [escape_cons, escapeChar]
    split
    · rw [List.cons_append, List.cons_append, List.nil_append, unescape, ih]
    · rename_i hc
      rw [List.singleton_append, unescape_cons_of_ne, ih]
      exact fun he => hc (he ▸ isSpecial_backslash place)

/-! ## Cuts -/

theorem cut?_cons_of_ne (p : Char → Bool) {c : Char} (h : c ≠ '\\') (s : Text) :
    cut? p (c :: s) =
      if p c = true then some ([], c :: s) else (cut? p s).map fun (a, b) => (c :: a, b) := by
  rw [cut?]
  · simp [h]
  · exact fun _ _ he => absurd he h

/-- **A cut is made at the first unescaped character of the class.** -/
theorem cut?_append {p : Char → Bool} {c : Char} (hp : p c = true) (hc : c ≠ '\\') {s : Text}
    (hs : Without p s) (t : Text) : cut? p (s ++ c :: t) = some (s, c :: t) := by
  induction hs with
  | nil => rw [List.nil_append, cut?_cons_of_ne p hc, if_pos hp]
  | escaped d _ ih => rw [List.cons_append, List.cons_append, cut?, ih]; rfl
  | plain hd hq _ ih =>
    rw [List.cons_append, cut?_cons_of_ne p hd, hq, if_neg Bool.false_ne_true, ih]; rfl

theorem cutLast?_cons_of_ne (p : Char → Bool) {c : Char} (h : c ≠ '\\') (s : Text) :
    cutLast? p (c :: s) = match cutLast? p s with
      | some (a, b) => some (c :: a, b)
      | none => if p c = true then some ([], c :: s) else none := by
  rw [cutLast?]
  · cases cutLast? p s with
    | none => simp [h]
    | some _ => rfl
  · exact fun _ _ he => absurd he h

theorem cutLast?_eq_none {p : Char → Bool} {s : Text} (hs : Without p s) : cutLast? p s = none := by
  induction hs with
  | nil => rfl
  | escaped d _ ih => rw [cutLast?, ih]; rfl
  | plain hd hq _ ih => rw [cutLast?_cons_of_ne p hd, ih, hq]; rfl

/-- **The last cut is made at a character of the class with none after it**, whatever stands in front. -/
theorem cutLast?_append {p q : Char → Bool} {c : Char} (hp : p c = true) (hc : c ≠ '\\') {s t : Text}
    (hs : Without q s) (ht : Without p t) : cutLast? p (s ++ c :: t) = some (s, c :: t) := by
  induction hs with
  | nil => rw [List.nil_append, cutLast?_cons_of_ne p hc, cutLast?_eq_none ht]; simp [hp]
  | escaped d _ ih => rw [List.cons_append, List.cons_append, cutLast?, ih]; rfl
  | plain hd _ _ ih => rw [List.cons_append, cutLast?_cons_of_ne p hd, ih]

/-! ## Splits -/

theorem split_cons_of_ne (sep : Char) {c : Char} (h : c ≠ '\\') (s : Text) :
    split sep (c :: s) = if c = sep then [] :: split sep s else extend [c] (split sep s) := by
  rw [split]
  exact fun _ _ he => absurd he h

theorem split_of_without {sep : Char} {s : Text} (hs : Without (· == sep) s) : split sep s = [s] := by
  induction hs with
  | nil => rfl
  | escaped d _ ih => rw [split, ih]; rfl
  | plain hd hq _ ih => rw [split_cons_of_ne sep hd, if_neg (by simpa using hq), ih]; rfl

theorem split_append {sep : Char} (hsep : sep ≠ '\\') {s : Text} (hs : Without (· == sep) s) (t : Text) :
    split sep (s ++ sep :: t) = s :: split sep t := by
  induction hs with
  | nil => rw [List.nil_append, split_cons_of_ne sep hsep, if_pos rfl]
  | escaped d _ ih => rw [List.cons_append, List.cons_append, split, ih]; rfl
  | plain hd hq _ ih =>
    rw [List.cons_append, split_cons_of_ne sep hd, if_neg (by simpa using hq), ih]; rfl

/-- **A split finds the parts that were joined.** -/
theorem split_join {sep : Char} (hsep : sep ≠ '\\') : ∀ {parts : List Text}, parts ≠ [] →
    (∀ s ∈ parts, Without (· == sep) s) → split sep (Text.join [sep] parts) = parts
  | [], h, _ => absurd rfl h
  | [s], _, h => split_of_without (h s List.mem_cons_self)
  | s :: t :: parts, _, h => by
    rw [Text.join, List.append_assoc, List.singleton_append,
      split_append hsep (h s List.mem_cons_self),
      split_join hsep (List.cons_ne_nil t parts) fun u hu => h u (List.mem_cons_of_mem s hu)]

/-! ## Groups -/

theorem groupsWithin_flatMap : ∀ {groups : List Text} {n : Nat},
    (∀ s ∈ groups, Without (· == ')') s) → groups.length ≤ n →
      groupsWithin n (groups.flatMap fun s => '(' :: s ++ [')']) = some groups
  | [], n, _, _ => by cases n <;> rfl
  | s :: groups, n + 1, h, hn => by
    rw [List.flatMap_cons, List.append_assoc, List.cons_append, groupsWithin, List.singleton_append,
      cut?_append rfl (by decide) (h s List.mem_cons_self)]
    simp only
    rw [groupsWithin_flatMap (fun t ht => h t (List.mem_cons_of_mem s ht)) (Nat.le_of_succ_le_succ hn)]
    rfl

/-- **A sequence of groups reads back.** -/
theorem groups?_flatMap {groups : List Text} (h : ∀ s ∈ groups, Without (· == ')') s) :
    groups? (groups.flatMap fun s => '(' :: s ++ [')']) = some groups :=
  groupsWithin_flatMap h (Text.length_le_flatMap fun _ _ => List.cons_ne_nil _ _)

@[simp] theorem braced?_braces (s : Text) : braced? ('{' :: s ++ ['}']) = some s := by
  rw [List.cons_append, braced?, List.getLast?_concat, if_pos rfl, List.dropLast_concat]

end SeriesCache.Escaped
