import SeriesCache.Proofs.Query.Again.Operand
/-!
# Reading what was printed

A reader reads a printed value exactly under some condition on the value (`Reader.Prints`): under the condition it reads
the value again, whatever may follow, and without it the value is not what it finds.  So a list of printed items is read
again exactly when all of them are (`Reader.Prints.separated`): from the left, one item that is found tells where the
next one starts.
-/
namespace SeriesCache.Reader

open Text (Lacks)

variable {α β : Type} {p q : Reader α} {F G : Text → Prop} {t u : Text} {a : α} {b : β} {L M : Prop}

/-- In front of whatever may follow, the reader finds the value in the text exactly under the condition. -/
structure Prints (p : Reader α) (F : Text → Prop) (t : Text) (a : α) (L : Prop) : Prop where
  again : L → p.Again F t a
  only : ∀ rest r, F rest → p (t ++ rest) = .found a r → L

theorem Again.prints (h : p.Again F t a) : p.Prints F t a True := ⟨fun _ => h, fun _ _ _ _ => trivial⟩

theorem Prints.imp (h : p.Prints F t a L) (hL : L ↔ M) : p.Prints F t a M :=
  ⟨fun hM => h.again (hL.2 hM), fun rest r hrest hfound => hL.1 (h.only rest r hrest hfound)⟩

theorem Prints.mono (h : p.Prints F t a L) (hF : ∀ rest, G rest → F rest) : p.Prints G t a L :=
  ⟨fun hL => (h.again hL).mono hF, fun rest r hrest => h.only rest r (hF rest hrest)⟩

/-- What is found is found up to the end of its text. -/
theorem Prints.rest_eq {rest r : Text} (h : p.Prints F t a L) (hrest : F rest) (hfound : p (t ++ rest) = .found a r) :
    r = rest ∧ L := by
  have hL := h.only rest r hrest hfound
  rw [h.again hL rest hrest] at hfound
  exact ⟨(Outcome.found.inj hfound).2.symm, hL⟩

/-! ## Readers put together -/

/-- What is read again in front leaves the rest, whatever it is. -/
theorem Again.prints_bind {f : α → Reader β} (hp : p.Again F t a) (hf : (f a).Prints G u b L)
    (hF : ∀ rest, G rest → F (u ++ rest)) : (p >>= f).Prints G (t ++ u) b L := by
  refine ⟨fun hL => hp.bind (hf.again hL) hF, fun rest r hrest hfound => hf.only rest r hrest ?_⟩
  rw [List.append_assoc] at hfound
  exact (bind_found (hp _ (hF rest hrest))).symm.trans hfound

theorem Again.prints_seq {p : Reader Unit} {q : Reader β} (hp : p.Again F t ()) (hq : q.Prints G u b L)
    (hF : ∀ rest, G rest → F (u ++ rest)) : (do p; q).Prints G (t ++ u) b L := hp.prints_bind hq hF

/-- Two parts in a row, of which the first is only passed over. -/
theorem Again.seq {p : Reader Unit} {q : Reader β} (hp : p.Again F t ()) (hq : q.Again G u b)
    (hF : ∀ rest, G rest → F (u ++ rest)) : (do p; q).Again G (t ++ u) b := hp.bind hq hF

/-- Two parts in a row, of which the second tells the first. -/
theorem Prints.bind {f : α → Reader β} (hp : p.Prints F t a L) (hf : (f a).Prints G u b M)
    (hF : ∀ rest, G rest → F (u ++ rest)) (htells : ∀ a' s r, f a' s = .found b r → a' = a) :
    (p >>= f).Prints G (t ++ u) b (L ∧ M) := by
  refine ⟨fun ⟨hL, hM⟩ => (hp.again hL).bind (hf.again hM) hF, fun rest r hrest hfound => ?_⟩
  rw [List.append_assoc] at hfound
  obtain ⟨a', s, ha, hb⟩ := bind_eq_found_iff.1 hfound
  obtain rfl := htells a' s r hb
  obtain ⟨rfl, hL⟩ := hp.rest_eq (hF rest hrest) ha
  exact ⟨hL, hf.only rest r hrest hb⟩

theorem Prints.blanks (h : p.Prints F t a L) (hne : t ≠ []) (hblank : Lacks Text.isBlank t) :
    (do blanks; p).Prints F t a L :=
  (again_blanks (t := []) rfl).prints_seq h fun rest _ => hblank.append hne rest

/-- A reader that would find another value does not matter. -/
theorem Prints.orElse (h : p.Prints F t a L) (hq : ∀ s r, q s ≠ .found a r) : (p <|> q).Prints F t a L := by
  refine ⟨fun hL => (h.again hL).orElse q, fun rest r hrest hfound => ?_⟩
  rcases orElse_eq_found_iff.1 hfound with hfound | ⟨-, hfound⟩
  · exact h.only rest r hrest hfound
  · exact absurd hfound (hq _ r)

theorem Prints.must (h : p.Prints F t a L) (fault : Fault) : (must fault p).Prints F t a L :=
  ⟨fun hL => (h.again hL).must fault, fun rest r hrest hfound => h.only rest r hrest (must_eq_found_iff.1 hfound)⟩

theorem Prints.optional (h : p.Prints F t a L) : (optional p).Prints F t (some a) L := by
  refine ⟨fun hL => (h.again hL).optional, fun rest r hrest hfound => ?_⟩
  rcases orElse_eq_found_iff.1 hfound with hfound | ⟨-, hfound⟩
  · obtain ⟨a', hfound, ha⟩ := map_eq_found_iff.1 hfound
    cases ha
    exact h.only rest r hrest hfound
  · cases hfound

theorem Prints.parenthesized (h : p.Prints (Lacks Text.goesOn) t a L) (hne : t ≠ []) (hblank : Lacks Text.isBlank t) :
    (parenthesized p).Prints (fun _ => True) ('(' :: (t ++ [')'])) a L := by
  have hclose := (again_blanks (t := []) rfl).seq ((again_char ')' fun _ => True).seq
    (again_pure (fun _ => True) a) fun _ _ => trivial) fun _ _ => rfl
  have hinner : (do let a ← p; Reader.blanks; char ')'; return a : Reader α).Prints (fun _ => True) (t ++ [')']) a
      (L ∧ True) := by
    refine h.bind hclose.prints (fun _ _ => rfl) fun a' s r hfound => ?_
    obtain ⟨_, _, -, hfound⟩ := bind_eq_found_iff.1 hfound
    obtain ⟨_, _, -, hfound⟩ := bind_eq_found_iff.1 hfound
    cases hfound
    rfl
  have hblanks := hinner.blanks (by simp) (hblank.append hne _)
  exact ((again_char '(' fun _ => True).prints_seq hblanks fun _ _ => trivial).imp (and_iff_left trivial)

/-! ## Lists of items -/

section

variable {item : Reader α} {text : α → Text} {C : α → Prop} {as : List α}

theorem again_behind (hitem : ∀ a ∈ as, item.Again F (text a) a) (hspace : ∀ s, item (' ' :: s) = item s)
    (hF : ∀ rest, F (',' :: rest)) (hG : ∀ rest, G rest → F rest ∧ Lacks (· == ',') (Text.dropBlanks rest)) :
    (many (do comma; item)).Again G (Text.behind ", ".toList (as.map text)) as := by
  have hnext : ∀ a ∈ as, (do comma; item : Reader α).Again F (',' :: ' ' :: text a) a := fun a ha =>
    (again_comma (t := []) rfl fun _ => True).bind (fun rest hrest => (hspace _).trans (hitem a ha rest hrest))
      fun _ _ => trivial
  have hmany : (many (do comma; item)).Again G
      ((as.map fun a => (',' :: ' ' :: text a, a)).flatMap Prod.fst)
      ((as.map fun a => (',' :: ' ' :: text a, a)).map Prod.snd) := by
    refine again_many (F := F) (List.forall_mem_map.2 hnext) (List.forall_mem_map.2 fun _ _ => List.cons_ne_nil _ _)
      (List.forall_mem_map.2 fun _ _ _ => hF _) fun rest hrest => ⟨(hG rest hrest).1, ?_⟩
    exact bind_refused (comma_refused (hG rest hrest).2)
  rw [List.flatMap_map, List.map_map, show (Prod.snd ∘ fun a => (',' :: ' ' :: text a, a)) = id from rfl,
    List.map_id] at hmany
  rwa [Text.behind, List.flatMap_map]

theorem only_behind (hspace : ∀ s, item (' ' :: s) = item s) (hF : ∀ rest, F (',' :: rest)) {rest r : Text}
    (hrest : F rest) : ∀ (n : Nat) (as : List α), (∀ a ∈ as, item.Prints F (text a) a (C a)) →
      manyWithin n (do comma; item) (Text.behind ", ".toList (as.map text) ++ rest) = .found as r → ∀ a ∈ as, C a
  | _, [], _, _ => List.forall_mem_nil _
  | 0, a :: as, _, h => by cases h
  | n + 1, a :: as, hitem, h => by
    obtain ⟨ha, hitem⟩ := List.forall_mem_cons.1 hitem
    have hnext : F (Text.behind ", ".toList (as.map text) ++ rest) := Text.behind_append (fun _ => hF _) hrest _
    rcases orElse_eq_found_iff.1 h with h | ⟨-, h⟩
    · obtain ⟨a', r', hfound, h⟩ := bind_eq_found_iff.1 h
      obtain ⟨as', r'', hmany, h⟩ := bind_eq_found_iff.1 h
      cases h
      have hcomma : (do comma; item : Reader α) (Text.behind ", ".toList ((a :: as).map text) ++ rest) =
          item (text a ++ (Text.behind ", ".toList (as.map text) ++ rest)) := by
        have hfound (s : Text) : comma (',' :: s) = .found () s := rfl
        rw [List.map_cons, Text.behind_cons, List.append_assoc, List.append_assoc]
        exact (bind_found (hfound _)).trans (hspace _)
      obtain ⟨rfl, hC⟩ := ha.rest_eq hnext (hcomma.symm.trans hfound)
      exact List.forall_mem_cons.2 ⟨hC, only_behind hspace hF hrest n as hitem hmany⟩
    · cases h

/-- **A printed list is read again exactly when all its items are.** -/
theorem Prints.separated (hitem : ∀ a ∈ as, item.Prints F (text a) a (C a)) (hspace : ∀ s, item (' ' :: s) = item s)
    (hF : ∀ rest, F (',' :: rest)) (hG : ∀ rest, G rest → F rest ∧ Lacks (· == ',') (Text.dropBlanks rest))
    (hne : as ≠ []) : (separated comma item).Prints G (Text.join ", ".toList (as.map text)) as (∀ a ∈ as, C a) := by
  cases as with
  | nil => exact absurd rfl hne
  | cons a as =>
    obtain ⟨ha, hitem⟩ := List.forall_mem_cons.1 hitem
    have hnext (rest : Text) (hrest : F rest) : F (Text.behind ", ".toList (as.map text) ++ rest) :=
      Text.behind_append (fun _ => hF _) hrest _
    have hmany : (many (do comma; item)).Prints G (Text.behind ", ".toList (as.map text)) as (∀ a ∈ as, C a) :=
      ⟨fun hC => again_behind (fun b hb => (hitem b hb).again (hC b hb)) hspace hF hG,
        fun rest r hrest hfound => only_behind hspace hF (hG rest hrest).1 _ as hitem hfound⟩
    have htail : (do let as ← many (do comma; item); return a :: as : Reader (List α)).Prints G
        (Text.behind ", ".toList (as.map text) ++ []) (a :: as) ((∀ a ∈ as, C a) ∧ True) :=
      hmany.bind (again_pure _ _).prints (fun _ h => h) fun as' s r h => by cases h; rfl
    rw [List.append_nil] at htail
    rw [List.map_cons, Text.join_cons]
    refine (ha.bind htail (fun rest hrest => hnext rest (hG rest hrest).1) fun a' s r h => ?_).imp ?_
    · obtain ⟨as', s', -, h⟩ := bind_eq_found_iff.1 h
      cases h
      rfl
    · rw [and_true, List.forall_mem_cons]

end

end SeriesCache.Reader
