import SeriesCache.Proofs.Query.Name
/-!
# Finding a clause of a printed statement

The words FROM and GROUP stand in a printed statement as words of their own only where their clauses start.
`Scan.next?` walks over a text by its tokens, which are quoted texts, expressions between slashes, words and
other characters, and stops at the word that is looked for.  Where it stops does not depend on the steps
(`Passes.unique`), and it passes over whatever is printed in front (`Skips`), so that two statements with one text have
one text from the clause on.
-/
namespace SeriesCache.Scan

/-- A word that no bare name is, and that tells itself from numbers, units and truth values by a letter. -/
structure IsKeyword (w : Text) : Prop where
  reserved : Name.isReserved w = true
  letter : 'o' ∈ Text.lower w

theorem isKeyword_from : IsKeyword "FROM".toList := ⟨by decide, by decide⟩

theorem isKeyword_group : IsKeyword "GROUP".toList := ⟨by decide, by decide⟩

/-- Quotes and the slash, in front of what has a rule of its own for where it ends. -/
def opens (c : Char) : Bool := c == '"' || c == '\'' || c == '/'

/-- What is left of a text behind its first token, unless that is the word. -/
def next? (w : Text) : Text → Option Text
  | [] => none
  | c :: s =>
    if Text.isWordPart c then
      if Text.sameWord w ((c :: s).takeWhile Text.isWordPart) then none
      else some ((c :: s).dropWhile Text.isWordPart)
    else if c = '/' then (Regex.body? false s).map Prod.snd
    else if opens c then (Quoted.body? c s).map Prod.snd
    else some s

/-- The second text is left of the first behind some tokens, none of which is the word. -/
inductive Passes (w : Text) : Text → Text → Prop
  | done (s : Text) : Passes w s s
  | step {s s' rest : Text} (h : next? w s = some s') (hrest : Passes w s' rest) : Passes w s rest

namespace Passes

variable {w s t u : Text}

theorem trans (h : Passes w s t) (h' : Passes w t u) : Passes w s u := by
  induction h with
  | done => exact h'
  | step h _ ih => exact .step h (ih h')

/-- **The walk stops at one place**, whatever is known of the way there. -/
theorem unique (h : Passes w s t) (h' : Passes w s u) (ht : next? w t = none) (hu : next? w u = none) : t = u := by
  induction h with
  | done s =>
    cases h' with
    | done => rfl
    | step h => rw [ht] at h; cases h
  | step h _ ih =>
    cases h' with
    | done => rw [hu] at h; cases h
    | step h' hrest =>
      rw [h] at h'
      cases h'
      exact ih hrest ht

end Passes

/-- The walk stops at the word in either case. -/
theorem next?_word {w v rest : Text} (hne : w ≠ []) (hw : w.all Text.isWordPart = true) (h : Text.lower v = Text.lower w)
    (hrest : Text.startsWith Text.isWordPart rest = false) : next? w (v ++ rest) = none := by
  have hv : v.all Text.isWordPart = true := by rw [← Text.all_isWordPart_lower, h, Text.all_isWordPart_lower, hw]
  cases v with
  | nil => exact absurd (List.map_eq_nil_iff.1 h.symm) hne
  | cons c v =>
    have hc : Text.isWordPart c = true := (Bool.and_eq_true_iff.1 (List.all_cons.symm.trans hv)).1
    rw [List.cons_append, next?, if_pos hc, ← List.cons_append, Text.takeWhile_append_of_all hv hrest,
      Text.sameWord, if_pos (beq_iff_eq.2 h.symm)]

theorem next?_self {w rest : Text} (hne : w ≠ []) (hw : w.all Text.isWordPart = true)
    (hrest : Text.startsWith Text.isWordPart rest = false) : next? w (w ++ rest) = none := next?_word hne hw rfl hrest

/-! ## What is passed over -/

/-- The walk passes over the text wherever no word goes on behind it. -/
def Skips (w t : Text) : Prop :=
  ∀ rest, Text.startsWith Text.isWordPart rest = false → Passes w (t ++ rest) rest

variable {w t u : Text}

theorem skips_nil (w : Text) : Skips w [] := fun rest _ => .done rest

theorem Skips.append (ht : Skips w t) (hu : Skips w u) (h : Text.startsWith Text.isWordPart u = false) :
    Skips w (t ++ u) := fun rest hrest => by
  rw [List.append_assoc]
  refine (ht (u ++ rest) ?_).trans (hu rest hrest)
  cases u with
  | nil => exact hrest
  | cons c u => exact h

/-- Characters that are tokens of their own. -/
def isMark (c : Char) : Bool := !Text.isWordPart c && !opens c

theorem next?_mark {c : Char} (hc : isMark c = true) (s : Text) : next? w (c :: s) = some s := by
  obtain ⟨hword, hopens⟩ := Bool.and_eq_true_iff.1 hc
  have hslash : c ≠ '/' := fun h => by rw [h] at hopens; cases hopens
  rw [next?, if_neg (by simpa using hword), if_neg hslash, if_neg (by simpa using hopens)]

theorem Passes.marks : ∀ {t : Text}, t.all isMark = true → ∀ s, Passes w (t ++ s) s
  | [], _, s => .done s
  | c :: t, h, s => by
    obtain ⟨hc, ht⟩ := Bool.and_eq_true_iff.1 (List.all_cons.symm.trans h)
    exact .step (next?_mark hc (t ++ s)) (.marks ht s)

theorem Skips.cons {c : Char} (ht : Skips w t) (hc : isMark c = true) : Skips w (c :: t) :=
  fun rest hrest => .step (next?_mark hc (t ++ rest)) (ht rest hrest)

theorem Skips.of_cons {c : Char} (h : Skips w (c :: t)) (hc : isMark c = true) : Skips w t := fun rest hrest => by
  have hpasses : Passes w (c :: (t ++ rest)) rest := h rest hrest
  generalize hs : c :: (t ++ rest) = s at hpasses
  cases hpasses with
  | done =>
    have hlength := congrArg List.length hs
    rw [List.length_cons, List.length_append] at hlength
    omega
  | step hnext hpasses =>
    rw [← hs, next?_mark hc] at hnext
    cases hnext
    exact hpasses

theorem Skips.marks (hu : Skips w u) : ∀ {t : Text}, t.all isMark = true → Skips w (t ++ u)
  | [], _ => hu
  | c :: t, h => by
    obtain ⟨hc, ht⟩ := Bool.and_eq_true_iff.1 (List.all_cons.symm.trans h)
    exact (hu.marks ht).cons hc

theorem startsWith_of_isMark {c : Char} (hc : isMark c = true) (t : Text) :
    Text.startsWith Text.isWordPart (c :: t) = false := by
  simpa [Text.startsWith] using (Bool.and_eq_true_iff.1 hc).1

theorem Skips.append_cons {c : Char} (ht : Skips w t) (hc : isMark c = true) (hu : Skips w u) :
    Skips w (t ++ c :: u) := ht.append (hu.cons hc) (startsWith_of_isMark hc u)

theorem skips_word (ht : t.all Text.isWordPart = true) (hw : Text.sameWord w t = false) : Skips w t := by
  intro rest hrest
  cases t with
  | nil => exact .done rest
  | cons c t =>
    refine .step ?_ (.done rest)
    have hc : Text.isWordPart c = true := (List.all_cons.symm.trans ht |> Bool.and_eq_true_iff.1).1
    rw [List.cons_append, next?, if_pos hc, ← List.cons_append, Text.takeWhile_append_of_all ht hrest,
      Text.dropWhile_append_of_all ht hrest, if_neg (by rw [hw]; exact Bool.false_ne_true)]

theorem skips_quoted {quote : Char} (hquote : quote = '"' ∨ quote = '\'')
    (h : ∀ rest, Quoted.body? quote (t ++ quote :: rest) = some (u, rest)) :
    Skips w (quote :: t ++ [quote]) := fun rest _ => by
  refine .step ?_ (.done rest)
  rw [List.append_assoc, List.cons_append, List.singleton_append]
  rcases hquote with rfl | rfl <;>
  · rw [next?, if_neg (by decide), if_neg (by decide), if_pos (by decide), h]
    rfl

theorem skips_quotedText {quote : Char} (hquote : quote = '"' ∨ quote = '\'') (s : Text) :
    Skips w (Quoted.text quote s) := by
  have hslash : quote ≠ '\\' ∧ quote ≠ 'n' := by rcases hquote with rfl | rfl <;> decide
  exact skips_quoted hquote fun rest => Quoted.body?_escape hslash.1 hslash.2 rest s

theorem skips_regexText {s rest : Text} (h : Regex.body? false s = some (t, rest)) : Skips w (Regex.text t) :=
  fun rest' _ => by
    refine .step ?_ (.done rest')
    rw [Regex.text_eq, List.cons_append, List.cons_append, next?, if_neg (by decide), if_pos rfl,
      List.append_assoc, List.singleton_append, (Regex.body?_escape h).2]
    rfl

theorem skips_unreserved (hw : IsKeyword w) (ht : t.all Text.isWordPart = true)
    (hreserved : Name.isReserved t = false) : Skips w t :=
  skips_word ht (Bool.eq_false_iff.2 fun hsame => by
    rw [← Name.isReserved_congr (eq_of_beq hsame), hw.reserved] at hreserved
    cases hreserved)

theorem skips_name (hw : IsKeyword w) (n : Text) : Skips w (Name.text n) := by
  rw [Name.text]
  split
  · rename_i hbare
    obtain ⟨-, hparts, hreserved⟩ := Name.isBare_iff.1 hbare
    exact skips_unreserved hw hparts hreserved
  · exact skips_quotedText (.inl rfl) n

/-- Characters that neither open nor close anything, nor stand in the words that are looked for. -/
def isPlain (c : Char) : Bool := !opens c && c != ')' && c.toLower != 'o'

theorem skips_plain (hw : IsKeyword w) : ∀ {t : Text}, t.all isPlain = true → Skips w t
  | [], _ => skips_nil w
  | c :: t, h => by
    obtain ⟨hc, ht⟩ := Bool.and_eq_true_iff.1 (List.all_cons.symm.trans h)
    obtain ⟨⟨hopens, -⟩, -⟩ := (Bool.and_eq_true_iff.1 hc).imp_left Bool.and_eq_true_iff.1
    by_cases hword : Text.isWordPart c = true
    · have hlength : ((c :: t).dropWhile Text.isWordPart).length < (c :: t).length := by
        rw [List.dropWhile_cons_of_pos hword, List.length_cons]
        exact Nat.lt_succ_of_le (List.dropWhile_sublist _).length_le
      rw [← List.takeWhile_append_dropWhile (p := Text.isWordPart) (l := c :: t)]
      refine Skips.append (skips_word List.all_takeWhile ?_) (skips_plain hw ?_)
        (Text.startsWith_dropWhile Text.isWordPart _)
      · refine Bool.eq_false_iff.2 fun hsame => ?_
        have hlower : Text.lower w = Text.lower ((c :: t).takeWhile Text.isWordPart) := eq_of_beq hsame
        obtain ⟨d, hd, ho⟩ := List.mem_map.1 (hlower ▸ hw.letter)
        have hplain := List.all_eq_true.1 h d ((List.takeWhile_sublist _).subset hd)
        rw [isPlain, ho] at hplain
        simp at hplain
      · exact List.all_eq_true.2 fun d hd => List.all_eq_true.1 h d ((List.dropWhile_sublist _).subset hd)
    · refine (skips_plain hw ht).cons ?_
      rw [isMark, Bool.eq_false_iff.2 hword, hopens]
      rfl
termination_by t => t.length
decreasing_by
  · exact hlength
  · exact Nat.lt_succ_self _

end SeriesCache.Scan
