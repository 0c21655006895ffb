import SeriesCache.Proofs.Query.Again.Operand
import SeriesCache.Proofs.Query.Printed
/-!
# Reading conditions again

A condition that is a disjunction of conjunctions is read again from its printed form when the operands of its
comparisons are (`Condition.reader_again`): what binds tighter needs no parentheses, and the rest has kept its own.
-/
namespace SeriesCache

open Reader
open Text (Lacks)

variable {s t rest : Text}

/-! ## Comparisons -/

/-- The operand is read again from its text. -/
def Operand.Reads (o : Operand) : Prop :=
  o.text ≠ [] ∧ Lacks Text.isBlank o.text ∧ reader.Again Expr.SumEnd o.text o

namespace Name

theorem again_text (n : Text) : reader.Again (Lacks Text.isWordPart) (text n) n :=
  fun _ hrest => reader_text fun _ => hrest

theorem lacks_text {c : Char} (hc : (Text.isWordPart c || c == '"') = false) (n : Text) : Lacks (· == c) (text n) := by
  obtain ⟨hword, hquote⟩ := Bool.or_eq_false_iff.1 hc
  unfold text
  split
  · rename_i hbare
    refine Text.lacks_of_startsWith (isBare_iff.1 hbare).1 fun d hd => beq_eq_false_iff_ne.2 ?_
    rintro rfl
    rw [Text.isWordPart_of_isWordStart hd] at hword
    cases hword
  · exact beq_eq_false_iff_ne.2 (beq_eq_false_iff_ne.1 hquote).symm

theorem text_start (n : Text) : text n ≠ [] ∧ Lacks Text.isBlank (text n) := by
  unfold text
  split
  · rename_i hbare
    obtain ⟨hstart, -, -⟩ := isBare_iff.1 hbare
    refine ⟨?_, Text.lacks_of_startsWith hstart fun c hc => Text.isBlank_of_isWordPart (Text.isWordPart_of_isWordStart hc)⟩
    rintro rfl
    cases hstart
  · exact ⟨List.cons_ne_nil _ _, rfl⟩

end Name

theorem Operator.reader_again (op : Operator) : reader.Again (Lacks fun c => c != ' ') op.text op := by
  intro rest hrest
  cases rest with
  | nil => cases op <;> rfl
  | cons c rest =>
    have hc : c = ' ' := by simpa [Lacks, Text.startsWith] using hrest
    subst hc
    cases op <;> rfl

theorem Comparison.reader_again {c : Comparison} (h : c.operand.Reads) :
    Condition.comparisonReader.Again Expr.SumEnd c.text c := by
  obtain ⟨hne, hblank, hagain⟩ := h
  have hoperand : (must .noOperand (do blanks; Operand.reader)).Again Expr.SumEnd ([' '] ++ c.operand.text) c.operand :=
    ((again_blanks (t := [' ']) rfl).bind hagain fun rest _ => hblank.append hne rest).must _
  have hoperator : Lacks Text.isBlank c.operator.text ∧ c.operator.text ≠ [] := by
    cases c.operator <;> exact ⟨rfl, List.cons_ne_nil _ _⟩
  have htext : c.text = Name.text c.name ++ ([' '] ++ (c.operator.text ++ ([' '] ++ c.operand.text ++ []))) := by
    rw [text]
    simp
  rw [htext]
  refine (Name.again_text c.name).bind ((again_blanks (t := [' ']) rfl).bind ((Operator.reader_again c.operator).bind
    (hoperand.bind (again_pure _ _) fun _ h => h) ?_) ?_) ?_
  · exact fun _ _ => rfl
  · intro rest _
    rw [List.append_assoc]
    exact hoperator.1.append hoperator.2 _
  · exact fun _ _ => rfl

/-! ## What is read -/

namespace Condition

/-- The comparisons of a condition are read again from their texts. -/
def Reads (c : Comparison) : Prop := c.operand.Reads

theorem takes_comparison_reads : comparisonReader.Takes fun _ c => Reads c := by
  have hoperand : (do blanks; Operand.reader).Takes fun _ o => o.Reads := by
    refine Operand.takesItem_again.blanks.imp ?_
    rintro _ o ⟨b, _, -, -, hne, ⟨rfl, hblank, hagain⟩, -⟩
    exact ⟨hne, hblank, hagain⟩
  exact (Scan.takes_name Scan.isKeyword_from).bind fun _ => takes_blanks.bind fun _ => Scan.takes_operator.bind fun _ =>
    (hoperand.must _).bind fun h => takes_pure h

/-! ## What is printed -/

/-- What may stand behind a printed condition: no join goes on there that binds as tightly. -/
def End : Level → Text → Prop
  | .unit, rest => Expr.SumEnd rest
  | .conjunction, rest => Expr.SumEnd rest ∧ word Connective.and.text (Text.dropBlanks rest) = .refused
  | .disjunction, rest => Expr.SumEnd rest ∧ ∀ op : Connective, word op.text (Text.dropBlanks rest) = .refused

theorem End.conjunction (h : End .disjunction rest) : End .conjunction rest := ⟨h.1, h.2 .and⟩

theorem end_close (level : Level) (rest : Text) : End level (')' :: rest) := by
  have hsum : Expr.SumEnd (')' :: rest) := .of_atNext ⟨')', rest, rfl, .inr rfl⟩
  cases level with
  | unit => exact hsum
  | conjunction => exact ⟨hsum, rfl⟩
  | disjunction => exact ⟨hsum, fun op => by cases op <;> rfl⟩

/-- A condition may stand in front of a join that binds less. -/
theorem end_connective (rest : Text) : End .unit ([' '] ++ (Connective.and.text ++ ([' '] ++ rest))) ∧
    End .conjunction ([' '] ++ (Connective.or.text ++ ([' '] ++ rest))) :=
  ⟨⟨⟨rfl, rfl⟩, rfl⟩, ⟨⟨rfl, rfl⟩, rfl⟩, rfl⟩

theorem text_start (c : Condition) : c.text ≠ [] ∧ Lacks Text.isBlank c.text := by
  induction c with
  | comparison c =>
    obtain ⟨hne, hblank⟩ := Name.text_start c.name
    exact ⟨List.append_ne_nil_of_left_ne_nil (List.append_ne_nil_of_left_ne_nil hne _) _, (hblank.append hne _).append
      (List.append_ne_nil_of_left_ne_nil hne _) _⟩
  | joined a op b iha ihb =>
    exact ⟨List.append_ne_nil_of_left_ne_nil (List.append_ne_nil_of_left_ne_nil iha.1 _) _, (iha.2.append iha.1 _).append
      (List.append_ne_nil_of_left_ne_nil iha.1 _) _⟩
  | group a ih => exact ⟨List.cons_ne_nil _ _, rfl⟩

/-- Items in a row that are read again one by one. -/
def Joins (op : Connective) (item : Reader Condition) (F : Text → Prop) (c : Condition) : Prop :=
  ∃ first others, (∀ b ∈ first :: others, item.Again F b.text b) ∧ c = others.foldl (fun a b => joined a op b) first

theorem Joins.single {op : Connective} {item : Reader Condition} {F : Text → Prop} {c : Condition}
    (h : item.Again F c.text c) : Joins op item F c :=
  ⟨c, [], List.forall_mem_cons.2 ⟨h, List.forall_mem_nil _⟩, rfl⟩

theorem Joins.concat {op : Connective} {item : Reader Condition} {F : Text → Prop} {a b : Condition}
    (ha : Joins op item F a) (hb : item.Again F b.text b) : Joins op item F (.joined a op b) := by
  obtain ⟨first, others, hall, rfl⟩ := ha
  refine ⟨first, others ++ [b], ?_, by rw [List.foldl_append]; rfl⟩
  rw [← List.cons_append]
  exact List.forall_mem_append.2 ⟨hall, List.forall_mem_singleton.2 hb⟩

def connected (op : Connective) (b : Condition) : Text := [' '] ++ (op.text ++ ([' '] ++ b.text))

theorem text_foldl (op : Connective) : ∀ (others : List Condition) (first : Condition),
    (others.foldl (fun a b => joined a op b) first).text = first.text ++ others.flatMap (connected op)
  | [], first => (List.append_nil _).symm
  | b :: others, first => by
    rw [List.foldl_cons, text_foldl op others, List.flatMap_cons, text, connected]
    simp

/-- What is joined to a condition, with its connective. -/
def otherReader (op : Connective) (item : Reader Condition) : Reader Condition := do
  blanks; word op.text; blanks
  must .noConditionPart item

theorem again_other {op : Connective} {item : Reader Condition} {F : Text → Prop} {b : Condition}
    (hb : item.Again F b.text b) : (otherReader op item).Again F (connected op b) b := by
  obtain ⟨hne, hblank⟩ := text_start b
  refine (again_blanks (t := [' ']) rfl).bind ((again_word rfl).bind ((again_blanks (t := [' ']) rfl).bind (hb.must _)
    ?_) ?_) ?_
  · exact fun rest _ => hblank.append hne rest
  · exact fun _ _ => rfl
  · intro rest _
    cases op <;> rfl

theorem again_others {op : Connective} {item : Reader Condition} {F G : Text → Prop} {others : List Condition}
    (hothers : ∀ b ∈ others, item.Again F b.text b) (hF : ∀ rest, F ([' '] ++ (op.text ++ ([' '] ++ rest))))
    (hG : ∀ rest, G rest → F rest ∧ word op.text (Text.dropBlanks rest) = .refused) :
    (many (otherReader op item)).Again G (others.flatMap (connected op)) others := by
  have hmany : (many (otherReader op item)).Again G
      ((others.map fun b => (connected op b, b)).flatMap Prod.fst) ((others.map fun b => (connected op b, b)).map Prod.snd) := by
    refine again_many (F := F) ?_ ?_ ?_ fun rest hrest => ⟨(hG rest hrest).1, ?_⟩
    · exact List.forall_mem_map.2 fun b hb => again_other (hothers b hb)
    · exact List.forall_mem_map.2 fun b _ => List.cons_ne_nil _ _
    · refine List.forall_mem_map.2 fun b _ rest => ?_
      simp only [connected, List.append_assoc]
      exact hF _
    · exact (bind_found (blanks_found rest)).trans (bind_refused (hG rest hrest).2)
  have hitems : (others.map fun b => (connected op b, b)).map Prod.snd = others := by
    rw [List.map_map]
    exact List.map_id others
  rwa [List.flatMap_map, hitems] at hmany

/-- A join is read again when its parts are, and a connective may follow each of them. -/
theorem Joins.again {op : Connective} {item : Reader Condition} {F G : Text → Prop} {c : Condition}
    (h : Joins op item F c) (hF : ∀ rest, F ([' '] ++ (op.text ++ ([' '] ++ rest))))
    (hG : ∀ rest, G rest → F rest ∧ word op.text (Text.dropBlanks rest) = .refused) :
    (joinReader op item).Again G c.text c := by
  obtain ⟨first, others, hall, rfl⟩ := h
  obtain ⟨hfirst, hothers⟩ := List.forall_mem_cons.1 hall
  have htail : (do let others ← many (otherReader op item)
                   return others.foldl (fun a b => joined a op b) first : Reader Condition).Again G
      (others.flatMap (connected op) ++ []) (others.foldl (fun a b => joined a op b) first) :=
    (again_others hothers hF hG).bind (again_pure _ _) fun _ h => h
  rw [text_foldl, ← List.append_nil (others.flatMap _)]
  refine hfirst.bind htail fun rest hrest => ?_
  rw [List.append_nil]
  cases others with
  | nil => exact (hG rest hrest).1
  | cons b others =>
    simp only [List.flatMap_cons, connected, List.append_assoc]
    exact hF _

/-- A conjunction is read again when it is a row of conditions that are. -/
theorem Joins.again_and {n : Nat} {c : Condition} (h : Joins .and (unitReader (readerWithin n)) (End .unit) c) :
    (joinReader .and (unitReader (readerWithin n))).Again (End .conjunction) c.text c :=
  h.again (fun rest => (end_connective rest).1) fun _ hrest => hrest

theorem Joins.again_or {n : Nat} {c : Condition}
    (h : Joins .or (joinReader .and (unitReader (readerWithin n))) (End .conjunction) c) :
    (readerWithin (n + 1)).Again (End .disjunction) c.text c :=
  h.again (fun rest => (end_connective rest).2) fun _ hrest => ⟨hrest.conjunction, hrest.2 .or⟩

theorem again_group {n : Nat} {a : Condition} (h : (readerWithin n).Again (End .disjunction) a.text a) :
    (unitReader (readerWithin n)).Again (End .unit) (group a).text (group a) := by
  have hclose : (do blanks; char ')').Again (End .unit) ([] ++ [')']) () :=
    (again_blanks rfl).bind (again_char ')' _) fun _ _ => rfl
  have htail : (do must .openGroup (do blanks; char ')'); return group a : Reader Condition).Again (End .unit)
      ([] ++ [')'] ++ []) (group a) := (hclose.must _).bind (again_pure _ _) fun _ h => h
  have htext : (group a).text = [] ++ (['('] ++ (a.text ++ ([] ++ [')'] ++ []))) := by
    rw [text]
    simp
  rw [htext]
  refine (again_blanks (t := []) rfl).bind (.orElse ((again_char '(' fun _ => True).bind (h.bind htail ?_) ?_) _) ?_
  · exact fun rest _ => end_close .disjunction _
  · exact fun _ _ => trivial
  · exact fun _ _ => rfl

theorem again_comparison {n : Nat} {c : Comparison} (h : Reads c) :
    (unitReader (readerWithin n)).Again (End .unit) (comparison c).text (comparison c) := by
  obtain ⟨hne, hblank⟩ := Name.text_start c.name
  have hstart {p : Char → Bool} (hname : Lacks p (Name.text c.name)) (rest : Text) : Lacks p (c.text ++ rest) := by
    rw [Comparison.text, List.append_assoc, List.append_assoc]
    exact hname.append hne _
  refine (again_blanks (t := []) rfl).bind (.else ?_ ((Comparison.reader_again h).map _)) ?_
  · exact fun rest _ => bind_refused (char_refused (hstart (Name.lacks_text (by decide) c.name) rest))
  · exact fun rest _ => hstart hblank rest

theorem joins_of_fits (c : Condition) :
    (c.Fits Reads .unit → ∀ n, c.text.length ≤ n →
      (unitReader (readerWithin n)).Again (End .unit) c.text c) ∧
    (c.Fits Reads .conjunction → ∀ n, c.text.length ≤ n →
      Joins .and (unitReader (readerWithin n)) (End .unit) c) ∧
    (c.Fits Reads .disjunction → ∀ n, c.text.length ≤ n →
      Joins .or (joinReader .and (unitReader (readerWithin n))) (End .conjunction) c) := by
  induction c with
  | comparison c =>
    have hunit (h : Reads c) (n : Nat) := again_comparison (n := n) h
    exact ⟨fun h n _ => hunit h n, fun h n _ => .single (hunit h n), fun h n _ => .single (Joins.single (hunit h n)).again_and⟩
  | group a ih =>
    have hunit (h : a.Fits Reads .disjunction) (n : Nat) (hn : (group a).text.length ≤ n) :
        (unitReader (readerWithin n)).Again (End .unit) (group a).text (group a) := by
      have hlength : (group a).text.length = a.text.length + 2 := by simp [text]
      obtain ⟨n, rfl⟩ : ∃ k, n = k + 1 := ⟨n - 1, by omega⟩
      exact again_group (ih.2.2 h n (by omega)).again_or
    exact ⟨hunit, fun h n hn => .single (hunit h n hn), fun h n hn => .single (Joins.single (hunit h n hn)).again_and⟩
  | joined a op b iha ihb =>
    have hlength : (joined a op b).text.length = a.text.length + (op.text.length + (b.text.length + 1) + 1) := by
      simp [text]
    have hand (hop : op = .and) (ha : a.Fits Reads .conjunction) (hb : b.Fits Reads .unit) (n : Nat)
        (hn : (joined a op b).text.length ≤ n) :
        Joins .and (unitReader (readerWithin n)) (End .unit) (joined a op b) := by
      subst hop
      exact (iha.2.1 ha n (by omega)).concat (ihb.1 hb n (by omega))
    refine ⟨False.elim, fun h n hn => ?_, fun h n hn => ?_⟩
    · cases op with
      | and => exact hand rfl h.1 h.2 n hn
      | or => exact False.elim h
    · cases op with
      | and => exact .single (hand rfl h.1 h.2 n hn).again_and
      | or => exact (iha.2.2 h.1 n (by omega)).concat (ihb.2.1 h.2 n (by omega)).again_and

/-- **A printed condition is read again**, whatever clauses follow it. -/
theorem reader_again {c : Condition} (h : c.Fits Reads .disjunction) : reader.Again (End .disjunction) c.text c := by
  intro rest hrest
  refine ((joins_of_fits c).2.2 h _ ?_).again_or rest hrest
  rw [List.length_append]
  omega

end Condition

end SeriesCache
