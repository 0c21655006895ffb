import SeriesCache.Proofs.Query.Again.Condition
import SeriesCache.Proofs.Query.Again.Field
/-!
# Reading statements again

A statement without a condition that is read from its printed form is read from it with any condition in it that was
read somewhere, or was left of such a one (`Select.read_withCondition`).  For the fields end where the printed FROM
stands, whatever follows it, and every clause ends where the next one starts.
-/
namespace SeriesCache

open Reader Scan
open Text (Lacks)

variable {s t rest : Text}

/-! ## Sources -/

namespace Source

/-- What is printed in front of a measurement's name. -/
def front : Option Text → Option Text → Text
  | none, none => []
  | some d, none => Name.text d ++ ['.', '.']
  | none, some p => Name.text p ++ ['.']
  | some d, some p => Name.text d ++ ['.'] ++ (Name.text p ++ ['.'])

theorem text_eq (source : Source) : source.text = front source.database source.policy ++ source.name.text := by
  obtain ⟨database, policy, name⟩ := source
  cases database <;> cases policy <;> simp [text, front]

theorem reader_text_dot (n rest : Text) : Name.reader (Name.text n ++ '.' :: rest) = .found n ('.' :: rest) :=
  Name.again_text n _ rfl

theorem char_dot (rest : Text) : char '.' ('.' :: rest) = .found () rest := rfl

theorem reader_dot (rest : Text) : Name.reader ('.' :: rest) = .refused := rfl

section

variable {α : Type} {x : Text}

/-- No name with a dot behind it stands in front. -/
structure Unqualified (x : Text) : Prop where
  lacks_dot : Lacks (· == '.') x
  name : Name.reader x = .refused ∨ ∃ n r, Name.reader x = .found n r ∧ Lacks (· == '.') r

theorem Unqualified.dot_refused (h : Unqualified x) (w : Text) (f : Text → Reader α) :
    (do let n ← Name.reader; exactly ('.' :: w); f n : Reader α) x = .refused := by
  rcases h.name with hname | ⟨n, r, hname, hdot⟩
  · exact bind_refused hname
  · exact (bind_found hname).trans (bind_refused (exactly_refused hdot))

/-- **The dots in front of a name tell its qualifiers**, when there is none behind it. -/
theorem qualifier_found (database policy : Option Text) (hx : Unqualified x) :
    (qualifier <|> pure (none, none)) (front database policy ++ x) = .found (database, policy) x := by
  cases database with
  | none =>
    cases policy with
    | none =>
      exact orElse_refused ((orElse_refused (hx.dot_refused [] _)).trans
        ((orElse_refused (hx.dot_refused ['.'] _)).trans (hx.dot_refused [] _)))
    | some p =>
      have hp := reader_text_dot p x
      have hdots : exactly "..".toList ('.' :: x) = .refused := exactly_refused (w := []) hx.lacks_dot
      rw [front, List.append_assoc]
      refine orElse_found ((orElse_refused ((bind_found hp).trans ((bind_found (char_dot _)).trans
        (hx.dot_refused [] _)))).trans ?_)
      exact (orElse_refused ((bind_found hp).trans (bind_refused hdots))).trans
        ((bind_found hp).trans (bind_found (char_dot _)))
  | some d =>
    cases policy with
    | none =>
      have hd := reader_text_dot d ('.' :: x)
      rw [front, List.append_assoc]
      refine orElse_found ((orElse_refused ((bind_found hd).trans ((bind_found (char_dot _)).trans
        (bind_refused (reader_dot _))))).trans ?_)
      exact orElse_found ((bind_found hd).trans (bind_found rfl))
    | some p =>
      have hd := reader_text_dot d (Name.text p ++ '.' :: x)
      have hp := reader_text_dot p x
      rw [front, List.append_assoc, List.append_assoc, List.append_assoc]
      exact orElse_found (orElse_found ((bind_found hd).trans ((bind_found (char_dot _)).trans
        ((bind_found hp).trans (bind_found (char_dot _))))))

end

end Source

namespace SourceName

/-- An expression in a source is one that was read. -/
def Reads : SourceName → Prop
  | name _ => True
  | regex r => Regex.reader.Again (fun _ => True) (Regex.text r) r

variable {n : SourceName}

theorem text_start (n : SourceName) : n.text ≠ [] ∧ Lacks Text.isBlank n.text ∧ Lacks (· == '.') n.text := by
  cases n with
  | name m =>
    obtain ⟨hne, hblank⟩ := Name.text_start m
    exact ⟨hne, hblank, Name.lacks_text (by decide) m⟩
  | regex r => exact ⟨List.cons_ne_nil _ _, rfl, rfl⟩

theorem unqualified (n : SourceName) (hrest : Lacks Text.goesOn rest) : Source.Unqualified (n.text ++ rest) := by
  obtain ⟨hne, -, hdot⟩ := text_start n
  refine ⟨hdot.append hne rest, ?_⟩
  cases n with
  | name m => exact .inr ⟨m, rest, Name.again_text m rest (hrest.of_goesOn (by decide)), hrest.of_goesOn (by decide)⟩
  | regex r => exact .inl rfl

theorem reader_again (h : n.Reads) :
    (SourceName.name <$> Name.reader <|> SourceName.regex <$> Regex.reader).Again (Lacks Text.goesOn) n.text n := by
  intro rest hrest
  cases n with
  | name m => exact orElse_found (map_found (Name.again_text m rest (hrest.of_goesOn (by decide))))
  | regex r => exact (orElse_refused (map_refused rfl)).trans (map_found (h rest trivial))

end SourceName

namespace Source

variable {source : Source}

/-- **A printed source is read again.** -/
theorem reader_again (h : source.name.Reads) : reader.Again (Lacks Text.goesOn) source.text source := by
  intro rest hrest
  rw [text_eq, List.append_assoc]
  exact (bind_found (qualifier_found source.database source.policy (source.name.unqualified hrest))).trans
    ((bind_found (SourceName.reader_again h rest hrest)).trans rfl)

theorem text_start (source : Source) : source.text ≠ [] ∧ Lacks Text.isBlank source.text := by
  have hfirst (n t : Text) : Name.text n ++ t ≠ [] ∧ Lacks Text.isBlank (Name.text n ++ t) := by
    obtain ⟨hne, hblank⟩ := Name.text_start n
    exact ⟨List.append_ne_nil_of_left_ne_nil hne t, hblank.append hne t⟩
  obtain ⟨hne, hblank, -⟩ := source.name.text_start
  rw [text_eq]
  cases source.database with
  | none =>
    cases source.policy with
    | none => exact ⟨hne, hblank⟩
    | some p =>
      rw [front, List.append_assoc]
      exact hfirst p _
  | some d =>
    cases source.policy with
    | none =>
      rw [front, List.append_assoc]
      exact hfirst d _
    | some p =>
      rw [front, List.append_assoc, List.append_assoc]
      exact hfirst d _

end Source

/-! ## Clauses -/

namespace Condition

/-- Behind the text a condition has its end wherever it has it without the text. -/
def Closes (t : Text) : Prop := ∀ rest, End .disjunction rest → End .disjunction (t ++ rest)

theorem closes_nil : Closes [] := fun _ h => h

theorem Closes.append {t u : Text} (ht : Closes t) (hu : Closes u) : Closes (t ++ u) := fun rest hrest => by
  rw [List.append_assoc]
  exact ht _ (hu rest hrest)

theorem closes_clause {α : Type} {text : α → Text} (h : ∀ a rest, End .disjunction (' ' :: (text a ++ rest)))
    (a : Option α) : Closes (Select.clause text a) := by
  cases a with
  | none => exact closes_nil
  | some a => exact fun rest _ => h a rest

theorem end_nil : End .disjunction [] := ⟨⟨⟨rfl, rfl⟩, rfl⟩, fun op => by cases op <;> rfl⟩

end Condition

namespace Select

theorem closes_tailText (s : Select) : Condition.Closes s.tailText := by
  unfold tailText countClause
  refine .append (.append (.append (.append (.append (.append (.append ?_ (Condition.closes_clause ?_ _))
    (Condition.closes_clause ?_ _)) (Condition.closes_clause ?_ _)) (Condition.closes_clause ?_ _))
    (Condition.closes_clause ?_ _)) (Condition.closes_clause ?_ _)) (Condition.closes_clause ?_ _)
  · split
    · exact Condition.closes_nil
    · exact fun rest _ => ⟨⟨⟨rfl, rfl⟩, rfl⟩, fun op => by cases op <;> rfl⟩
  · intro f rest
    cases f <;> exact ⟨⟨⟨rfl, rfl⟩, rfl⟩, fun op => by cases op <;> rfl⟩
  · intro o rest
    cases o <;> exact ⟨⟨⟨rfl, rfl⟩, rfl⟩, fun op => by cases op <;> rfl⟩
  all_goals exact fun _ _ => ⟨⟨⟨rfl, rfl⟩, rfl⟩, fun op => by cases op <;> rfl⟩

theorem end_tailText (s : Select) : Condition.End .disjunction s.tailText := by
  have hend := s.closes_tailText [] Condition.end_nil
  rwa [List.append_nil] at hend

/-! ## Statements -/

/-- The condition of a statement that was read is one that is read again. -/
theorem fits_of_read {q : Text} {s : Select} (h : read q = .ok s) :
    ∀ c ∈ s.condition, c.Fits Condition.Reads .disjunction :=
  condition_of_read (Condition.reader_fits Condition.takes_comparison_reads) h

/-- **The fields end in front of the printed FROM**, and are read in front of it whatever follows. -/
theorem fieldsReader_found {f x r r' : Text} {fields : List Field} {source : Source} (hskips : Skips "FROM".toList f)
    (hfields : fieldsReader (' ' :: (f ++ ' ' :: ("FROM".toList ++ ' ' :: x))) = .found fields r)
    (hsource : sourceReader r = .found source r') : ∃ b, b.all Text.isBlank = true ∧ b ≠ [] ∧
      r = b ++ ("FROM".toList ++ ' ' :: x) ∧ ∀ y,
        fieldsReader (' ' :: (f ++ ' ' :: ("FROM".toList ++ ' ' :: y))) = .found fields (b ++ ("FROM".toList ++ ' ' :: y)) := by
  obtain ⟨t, ht, htskips, hagain⟩ := Field.takes_list_again _ fields r hfields
  obtain ⟨_, r₁, hblanks, hsource⟩ := bind_eq_found_iff.1 hsource
  obtain ⟨_, r₂, hword, -⟩ := bind_eq_found_iff.1 hsource
  obtain ⟨v, rfl, hv, hbreak⟩ := word_eq_found hword
  obtain ⟨b, rfl, hb, hne, -⟩ := someBlanks_eq_found hblanks
  have hread : Passes "FROM".toList (t ++ (b ++ (v ++ r₂))) (v ++ r₂) :=
    (htskips _ ((Text.lacks_of_blanks hb (by decide)).append hne _)).trans (.marks (isMark_of_isBlank hb) _)
  have hprinted : Passes "FROM".toList (' ' :: (f ++ ' ' :: ("FROM".toList ++ ' ' :: x))) ("FROM".toList ++ ' ' :: x) :=
    .step (next?_mark (by decide) _) ((hskips _ rfl).trans (.step (next?_mark (by decide) _) (.done _)))
  rw [← ht] at hread
  have hfrom : v ++ r₂ = "FROM".toList ++ ' ' :: x :=
    hread.unique hprinted (next?_word (by decide) (by decide) hv hbreak) (next?_self (by decide) (by decide) rfl)
  have hfront : ' ' :: (f ++ [' ']) = t ++ b := by
    rw [hfrom, ← List.append_assoc] at ht
    exact List.append_cancel_right (show ' ' :: (f ++ [' ']) ++ ("FROM".toList ++ ' ' :: x) = _ by rw [← ht]; simp)
  refine ⟨b, hb, hne, by rw [hfrom], fun y => ?_⟩
  have htext : ' ' :: (f ++ ' ' :: ("FROM".toList ++ ' ' :: y)) = t ++ (b ++ ("FROM".toList ++ ' ' :: y)) := by
    rw [← List.append_assoc, ← hfront]
    simp
  rw [htext]
  exact hagain _ (Field.listEnd_from hb hne y)

theorem sourceReader_found {b : Text} {source : Source} (hname : source.name.Reads) (hb : b.all Text.isBlank = true)
    (hne : b ≠ []) (hrest : Lacks Text.goesOn rest) :
    sourceReader (b ++ ("FROM".toList ++ ' ' :: (source.text ++ rest))) = .found source rest := by
  obtain ⟨hsource, hblank⟩ := source.text_start
  have hspace : blanks (' ' :: (source.text ++ rest)) = .found () (source.text ++ rest) :=
    again_blanks (t := [' ']) rfl _ (hblank.append hsource rest)
  have hblanks (x : Text) : someBlanks (b ++ ("FROM".toList ++ x)) = .found () ("FROM".toList ++ x) :=
    again_someBlanks hb hne _ rfl
  exact (bind_found (hblanks _)).trans ((bind_found (word_found _ rfl)).trans
    ((bind_found hspace).trans (Source.reader_again hname rest hrest)))

theorem conditionReader_found {c : Condition} (hc : c.Fits Condition.Reads .disjunction)
    (hrest : Condition.End .disjunction rest) :
    conditionReader (' ' :: ("WHERE".toList ++ ' ' :: (c.text ++ rest))) = .found c rest := by
  obtain ⟨hne, hblank⟩ := c.text_start
  have hspace : blanks (' ' :: (c.text ++ rest)) = .found () (c.text ++ rest) :=
    again_blanks (t := [' ']) rfl _ (hblank.append hne rest)
  have hblanks (x : Text) : someBlanks (' ' :: ("WHERE".toList ++ x)) = .found () ("WHERE".toList ++ x) := rfl
  exact (bind_found (hblanks _)).trans ((bind_found (word_found _ rfl)).trans
    ((bind_found hspace).trans (must_found (Condition.reader_again hc rest hrest))))

/-- **A statement is read again with a condition in it**, if it is without. -/
theorem read_withCondition {s : Select} {m : Text} {c : Condition} (hfields : ∀ f ∈ s.fields, Skips "FROM".toList f.text)
    (hname : s.source.name = .name m) (hread : read { s with condition := none }.text = .ok { s with condition := none })
    (hc : c.Fits Condition.Reads .disjunction) :
    read { s with condition := some c }.text = .ok { s with condition := some c } := by
  have hselect : "SELECT ".toList = "SELECT".toList ++ [' '] := by decide
  have htext (condition : Option Condition) : { s with condition }.text = "SELECT".toList ++ ' ' ::
      (Text.join ", ".toList (s.fields.map Field.text) ++ ' ' :: ("FROM".toList ++ ' ' ::
        (s.source.text ++ ({ s with condition }.whereText ++ s.tailText)))) := by
    rw [text_eq, hselect, List.append_assoc, List.append_assoc]
    rfl
  have hkey (x : Text) : keywordReader ("SELECT".toList ++ ' ' :: x) = .found () (' ' :: x) := rfl
  obtain ⟨r₀, r₁, r₂, r₃, r₄, r₅, hkeyword, hfound, hsource, hcondition, hclauses, hend⟩ := read_eq_ok_iff.1 hread
  rw [htext, hkey] at hkeyword
  cases hkeyword
  obtain ⟨b, hb, hne, rfl, hfields⟩ := fieldsReader_found (skips_join (List.forall_mem_map.2 hfields)) hfound hsource
  have hname : s.source.name.Reads := by rw [hname]; trivial
  have htail := sourceReader_found hname hb hne s.end_tailText.1.1.1
  obtain rfl : s.tailText = r₂ := (Outcome.found.inj (htail.symm.trans hsource)).2
  obtain rfl : r₃ = s.tailText := optional_eq_none hcondition
  have hwhere : Lacks Text.goesOn ({ s with condition := some c }.whereText ++ s.tailText) := rfl
  refine read_eq_ok_iff.2 ⟨_, _, _, _, r₄, r₅, htext _ ▸ hkey _, hfields _, sourceReader_found hname hb hne hwhere,
    optional_found (conditionReader_found hc s.end_tailText), ?_, hend⟩
  obtain ⟨-, -, -, hclauses⟩ := clausesReader_found hclauses
  exact hclauses (some c)

end Select

end SeriesCache
