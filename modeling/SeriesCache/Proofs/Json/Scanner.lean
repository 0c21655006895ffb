import SeriesCache.Json.Answer
import SeriesCache.Proofs.Query.Name
/-!
# Scanning written JSON

A value is read from the text that it was written as, in front of whatever may stand behind a value (`JsonReader.Reads`).
Strings read back whatever their characters (`reads_stringText`); an array reads back when its items do
(`reads_arrayText`), and an object when its members take one state to the next (`reads_objectText`).
-/
namespace SeriesCache.JsonReader

open Json

variable {α β σ : Type} {p : JsonReader α} {s s' t rest : Text} {a : α}

/-! ## Steps -/

theorem bind_ok (h : p s = .ok (a, s')) (f : α → JsonReader β) : (p >>= f) s = f a s' := by
  show (p s >>= fun r => f r.1 r.2) = _
  rw [h]
  rfl

theorem bind_get (s : Text) (f : Text → JsonReader β) : (get >>= f) s = f s s := bind_ok (p := get) rfl f

theorem bind_skip (c : Char) (s : Text) (f : Unit → JsonReader β) : (skip >>= f) (c :: s) = f () s :=
  bind_ok (p := skip) rfl f

theorem peek_cons {c : Char} (hc : Text.isBlank c = false) (s : Text) : peek (c :: s) = .ok (c, c :: s) := by
  have hdrop : Text.dropBlanks (c :: s) = c :: s := Text.dropWhile_of_startsWith hc
  rw [peek, bind_get]
  simp only [hdrop]
  rfl

theorem bind_peek {c : Char} (hc : Text.isBlank c = false) (s : Text) (f : Char → JsonReader β) :
    (peek >>= f) (c :: s) = f c (c :: s) := bind_ok (peek_cons hc s) f

theorem colon_cons (s : Text) : colon (':' :: s) = .ok ((), s) := by
  rw [colon, bind_peek rfl]
  rfl

theorem letters_append (w rest : Text) : letters w (w ++ rest) = .ok ((), rest) := by
  induction w with
  | nil => rfl
  | cons c w ih =>
    rw [letters, List.cons_append, bind_get]
    simp only [if_true]
    exact ih

/-! ## Values -/

/-- Whether a value may start with the character. -/
def opens (c : Char) : Bool := !Text.isBlank c && c != ']' && c != '}' && c != ','

/-- What may stand behind a value: nothing, a comma or a closing bracket. -/
def Closes (rest : Text) : Prop := Text.startsWith (fun c => !(c == ',' || c == ']' || c == '}')) rest = false

theorem Closes.cases (h : Closes rest) : rest = [] ∨ ∃ c s, rest = c :: s ∧ (c = ',' ∨ c = ']' ∨ c = '}') := by
  cases rest with
  | nil => exact .inl rfl
  | cons c s =>
    have hclose : (c == ',' || c == ']' || c == '}') = true := Bool.not_eq_eq_eq_not.1 h
    simp only [Bool.or_eq_true, beq_iff_eq, or_assoc] at hclose
    exact .inr ⟨c, s, rfl, hclose⟩

/-- The text is a value, and the reader reads it as `a` in front of what may stand behind a value. -/
structure Reads (p : JsonReader α) (t : Text) (a : α) : Prop where
  opens : Text.startsWith opens t = true
  ok : ∀ rest, Closes rest → p (t ++ rest) = .ok (a, rest)

/-- The first character of a value is no blank and closes nothing. -/
theorem Reads.exists_cons (h : Reads p t a) : ∃ c u, t = c :: u ∧ Text.isBlank c = false ∧ c ≠ ']' := by
  have hopens := h.opens
  cases t with
  | nil => cases hopens
  | cons c u =>
    simp only [Text.startsWith, JsonReader.opens, Bool.and_eq_true, Bool.not_eq_true', bne_iff_ne] at hopens
    exact ⟨c, u, rfl, hopens.1.1.1, hopens.1.1.2⟩

/-! ## Strings -/

theorem hexValue?_digitChar {d : Nat} (h : d < 16) : hexValue? (Nat.digitChar d) = some d := by
  have hall : ∀ d : Fin 16, hexValue? (Nat.digitChar d) = some d.val := by decide
  exact hall ⟨d, h⟩

theorem hex4_hex4Text {n : Nat} (h : n < 65536) (rest : Text) : hex4 (hex4Text n ++ rest) = .ok (n, rest) := by
  have hdigit (m : Nat) : hexValue? (Nat.digitChar (m % 16)) = some (m % 16) :=
    hexValue?_digitChar (Nat.mod_lt m (by decide))
  have hsum : ((n / 4096 % 16 * 16 + n / 256 % 16) * 16 + n / 16 % 16) * 16 + n % 16 = n := by omega
  simp only [hex4Text, List.cons_append, List.nil_append, hex4, hdigit, hsum]

/-- **A character reads back from its escape**: each takes one step, whatever it is. -/
theorem stringWithin_escapeChar {n : Nat} (h : stringWithin true n s = .ok (t, rest)) (c : Char) :
    stringWithin true (n + 1) (escapeChar c ++ s) = .ok (c :: t, rest) := by
  have hescaped {u : Text} (hescape : escape true (u ++ s) = .ok (c, s)) :
      stringWithin true (n + 1) ('\\' :: u ++ s) = .ok (c :: t, rest) := by
    rw [List.cons_append, stringWithin, if_neg (by decide), if_pos rfl, hescape]
    show (stringWithin true n s >>= fun r => pure (c :: r.1, r.2)) = _
    rw [h]
    rfl
  unfold escapeChar
  split
  case h_8 hquote hslash _ _ _ _ _ =>
    split
    · -- a control character has no half of a surrogate pair for its code
      refine hescaped (u := 'u' :: hex4Text c.toNat) ?_
      rw [List.cons_append, escape, hex4_hex4Text (by omega)]
      show (if 0xDC00 ≤ c.toNat ∧ c.toNat ≤ 0xDFFF then _ else _) = _
      rw [if_neg (by omega), if_neg (by omega), Char.ofNat_toNat]
      rfl
    · rename_i hcontrol
      rw [List.singleton_append, stringWithin, if_neg hquote, if_neg hslash, if_neg hcontrol, h]
      rfl
  all_goals exact hescaped rfl

theorem stringWithin_escaped (rest : Text) : ∀ (n : Nat) (s : Text), s.length < n →
    stringWithin true n (s.flatMap escapeChar ++ '"' :: rest) = .ok (s, rest)
  | n + 1, [], _ => rfl
  | n + 1, c :: s, h => by
    rw [List.flatMap_cons, List.append_assoc]
    exact stringWithin_escapeChar (stringWithin_escaped rest n s (Nat.lt_of_succ_lt_succ h)) c

theorem escapeChar_ne_nil (c : Char) : escapeChar c ≠ [] := by
  unfold escapeChar
  split
  case h_8 => split <;> exact List.cons_ne_nil _ _
  all_goals exact List.cons_ne_nil _ _

/-- **A string reads back**, whatever follows it. -/
theorem stringBody_escaped (s rest : Text) : stringBody true (s.flatMap escapeChar ++ '"' :: rest) = .ok (s, rest) := by
  refine stringWithin_escaped rest _ s ?_
  have hlength := Text.length_le_flatMap fun c (_ : c ∈ s) => escapeChar_ne_nil c
  rw [List.length_append, List.length_cons]
  omega

theorem stringText_append (s rest : Text) : stringText s ++ rest = '"' :: (s.flatMap escapeChar ++ '"' :: rest) := by
  rw [stringText, List.cons_append, List.cons_append, List.append_assoc, List.singleton_append]

theorem reads_stringText (s : Text) : Reads string (stringText s) s := by
  refine ⟨rfl, fun rest _ => ?_⟩
  rw [stringText_append, string, bind_peek rfl, if_pos rfl, bind_skip, stringBody_escaped]

/-! ## Arrays -/

theorem closes_behind (h : Closes rest) (ts : List Text) : Closes (Text.behind [','] ts ++ rest) :=
  Text.behind_append (fun _ => rfl) h ts

theorem closes_bracket (rest : Text) : Closes (']' :: rest) := rfl

theorem closes_brace (rest : Text) : Closes ('}' :: rest) := rfl

variable {item : JsonReader α} {text : α → Text} {as : List α}

theorem moreWithin_behind (hitem : ∀ a ∈ as, Reads item (text a) a) (rest : Text) : ∀ n, as.length < n →
    moreWithin item n (Text.behind [','] (as.map text) ++ ']' :: rest) = .ok (as, rest) := by
  induction as with
  | nil =>
    rintro (_ | n) hn
    · cases hn
    · rfl
  | cons a as ih =>
    rintro (_ | n) hn
    · cases hn
    · obtain ⟨ha, has⟩ := List.forall_mem_cons.1 hitem
      obtain ⟨c, u, hu, hblank, hclose⟩ := ha.exists_cons
      have hfirst := ha.ok _ (closes_behind (closes_bracket rest) (as.map text))
      rw [hu, List.cons_append] at hfirst
      rw [List.map_cons, Text.behind_cons, hu, List.append_assoc, List.append_assoc, List.cons_append, List.cons_append,
        List.nil_append, moreWithin, bind_peek rfl]
      simp only [bind_skip]
      rw [bind_peek hblank, if_neg hclose]
      show (item >>= fun a => do return a :: (← moreWithin item n)) _ = _
      rw [bind_ok hfirst, bind_ok (ih has n (Nat.lt_of_succ_lt_succ hn))]
      rfl

/-- **An array reads back** when its items do. -/
theorem reads_arrayText (hitem : ∀ a ∈ as, Reads item (text a) a) :
    Reads (array item) (arrayText text as) as := by
  refine ⟨rfl, fun rest _ => ?_⟩
  rw [arrayText, List.cons_append, List.cons_append, List.append_assoc, List.singleton_append, array, bind_peek rfl,
    if_pos rfl, bind_skip, items]
  cases as with
  | nil => rfl
  | cons a as =>
    obtain ⟨ha, has⟩ := List.forall_mem_cons.1 hitem
    obtain ⟨c, u, hu, hblank, hclose⟩ := ha.exists_cons
    have hfirst := ha.ok _ (closes_behind (closes_bracket rest) (as.map text))
    have hlength := Text.length_le_behind (List.cons_ne_nil ',' []) (as.map text)
    rw [List.length_map] at hlength
    rw [hu, List.cons_append] at hfirst
    rw [List.map_cons, Text.join_cons, List.append_assoc, hu, List.cons_append, bind_peek hblank, if_neg hclose]
    show (item >>= fun a => do return a :: (← moreWithin item ((← get).length + 1))) _ = _
    rw [bind_ok hfirst, bind_get, bind_ok (moreWithin_behind has rest _ ?_)]
    · rfl
    · rw [List.length_append]
      omega

/-! ## Objects -/

/-- The members of an object take one state to the other, each read behind its key. -/
inductive Steps (member : σ → Text → JsonReader σ) : σ → List (Text × Text) → σ → Prop where
  | nil (state : σ) : Steps member state [] state
  | cons {state next last : σ} {key t : Text} {ms : List (Text × Text)}
      (first : ∀ rest, Closes rest → member state key (':' :: t ++ rest) = .ok (next, rest))
      (more : Steps member next ms last) : Steps member state ((key, t) :: ms) last

variable {member : σ → Text → JsonReader σ} {state next last : σ} {ms ns : List (Text × Text)}

theorem Steps.append (h : Steps member state ms next) (h' : Steps member next ns last) :
    Steps member state (ms ++ ns) last := by
  induction h with
  | nil => exact h'
  | cons first _ ih => exact .cons first (ih h')

/-- A member is written as its key and its value. -/
def memberText (m : Text × Text) : Text := stringText m.1 ++ ':' :: m.2

theorem objectText_eq (ms : List (Text × Text)) :
    objectText ms = '{' :: (Text.join [','] (ms.map memberText) ++ ['}']) := rfl

theorem membersWithin_succ {key : Text} (h : member state key (':' :: t ++ rest) = .ok (next, rest)) (n : Nat) :
    membersWithin (stringBody true) member (n + 1) state (memberText (key, t) ++ rest) = (do
      match ← peek with
      | '}' => skip; return next
      | ',' => skip; membersWithin (stringBody true) member n next
      | _ => throw JsonFault.badSyntax) rest := by
  rw [memberText, List.append_assoc, stringText_append, membersWithin, bind_peek rfl, if_neg (by decide)]
  simp only [bind_skip]
  exact (bind_ok (stringBody_escaped key _) _).trans (bind_ok h _)

theorem membersWithin_behind {m : Text × Text} (h : Steps member state (m :: ms) last) (rest : Text) : ∀ n,
    ms.length < n → membersWithin (stringBody true) member n state
      (memberText m ++ (Text.behind [','] (ms.map memberText) ++ '}' :: rest)) = .ok (last, rest) := by
  induction ms generalizing m state with
  | nil =>
    rintro (_ | n) hn
    · cases hn
    · cases h with
      | cons first more =>
        cases more
        exact membersWithin_succ (first _ (closes_brace rest)) n
  | cons m' ms ih =>
    rintro (_ | n) hn
    · cases hn
    · cases h with
      | cons first more =>
        rw [membersWithin_succ (first _ (closes_behind (closes_brace rest) _)) n, List.map_cons, Text.behind_cons,
          List.append_assoc, List.append_assoc]
        exact ih more n (Nat.lt_of_succ_lt_succ hn)

/-- **The members of an object are read** one behind the other. -/
theorem members_objectText (h : Steps member state ms last) (rest : Text) :
    (skip >>= fun _ => members (stringBody true) member state) (objectText ms ++ rest) = .ok (last, rest) := by
  rw [objectText_eq, List.cons_append, bind_skip, List.append_assoc, List.singleton_append, members]
  cases h with
  | nil => rfl
  | @cons _ _ _ key t ms first more =>
    have hlength := Text.length_le_behind (List.cons_ne_nil ',' []) (ms.map memberText)
    rw [List.length_map] at hlength
    rw [List.map_cons, Text.join_cons, List.append_assoc]
    have hquote : ∃ u, memberText (key, t) ++ (Text.behind [','] (ms.map memberText) ++ '}' :: rest) = '"' :: u :=
      ⟨_, rfl⟩
    obtain ⟨u, hu⟩ := hquote
    rw [hu, bind_peek rfl, if_neg (by decide)]
    show (get >>= fun s => membersWithin (stringBody true) member (s.length + 1) state) _ = _
    rw [bind_get, ← hu]
    refine membersWithin_behind (.cons first more) rest _ ?_
    rw [List.length_append, List.length_append]
    omega

/-- **A record written as an object reads back** when its members take the first state to the last. -/
theorem reads_objectText (fields : List (σ → JsonReader σ)) (h : Steps member state ms last) :
    Reads (record fields member state) (objectText ms) last := by
  refine ⟨rfl, fun rest _ => ?_⟩
  have hmembers := members_objectText h rest
  rw [objectText_eq, List.cons_append] at hmembers ⊢
  rw [record, bind_peek rfl]
  exact hmembers

end SeriesCache.JsonReader
