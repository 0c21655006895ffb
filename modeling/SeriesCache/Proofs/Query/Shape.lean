import SeriesCache.Proofs.Query.Reader
import SeriesCache.Query.Condition
/-!
# The shape of conditions

A condition that was read is a disjunction of conjunctions of comparisons and groups (`Condition.takes_fits`), and is so
still when it has been pruned of the comparisons on a name (`Condition.fits_without`), which leaves the others in order
(`Condition.comparisons_without`).
-/
namespace SeriesCache

open Reader

namespace Condition

/-- How tightly a condition binds. -/
inductive Level where
  | unit
  | conjunction
  | disjunction

/-- A condition that is printed as it was read: what is joined binds tighter than the join, and only the left side may
be a join of the same kind. -/
def Fits (P : Comparison → Prop) : Level → Condition → Prop
  | _, .comparison c => P c
  | _, .group a => a.Fits P .disjunction
  | .unit, .joined _ _ _ => False
  | .conjunction, .joined a .and b => a.Fits P .conjunction ∧ b.Fits P .unit
  | .conjunction, .joined _ .or _ => False
  | .disjunction, .joined a .and b => a.Fits P .conjunction ∧ b.Fits P .unit
  | .disjunction, .joined a .or b => a.Fits P .disjunction ∧ b.Fits P .conjunction

variable {P : Comparison → Prop}

theorem Fits.conjunction {c : Condition} (h : c.Fits P .unit) : c.Fits P .conjunction := by
  cases c with
  | comparison c => exact h
  | group a => exact h
  | joined a op b => exact False.elim h

theorem Fits.disjunction {c : Condition} (h : c.Fits P .conjunction) : c.Fits P .disjunction := by
  cases c with
  | comparison c => exact h
  | group a => exact h
  | joined a op b =>
    cases op with
    | and => exact h
    | or => exact False.elim h

/-- Whatever the shape, the predicate holds of all comparisons. -/
theorem Fits.forall_comparisons {c : Condition} {level : Level} (h : c.Fits P level) : ∀ x ∈ c.comparisons, P x := by
  induction c generalizing level with
  | comparison c => exact List.forall_mem_singleton.2 (by cases level <;> exact h)
  | group a ih =>
    have ha : a.Fits P .disjunction := by cases level <;> exact h
    exact ih ha
  | joined a op b iha ihb =>
    obtain ⟨l, m, ha, hb⟩ : ∃ l m, a.Fits P l ∧ b.Fits P m := by
      cases level with
      | unit => exact False.elim h
      | conjunction =>
        cases op with
        | and => exact ⟨_, _, h⟩
        | or => exact False.elim h
      | disjunction => cases op <;> exact ⟨_, _, h⟩
    exact List.forall_mem_append.2 ⟨iha ha, ihb hb⟩

/-! ## What is pruned -/

/-- The comparisons that are left are those on other names, in order. -/
theorem comparisons_without (name : Text) (c : Condition) :
    (c.without name).elim [] comparisons = c.comparisons.filter fun x => !x.isOn name := by
  induction c with
  | comparison x =>
    rw [without]
    split <;> rename_i h <;> simp [comparisons, h]
  | joined a op b iha ihb =>
    rw [without, comparisons, List.filter_append, ← iha, ← ihb]
    cases a.without name with
    | none =>
      rw [join?.eq_def]
      rfl
    | some a' =>
      cases b.without name with
      | none => exact (List.append_nil _).symm
      | some b' => rfl
  | group a ih =>
    rw [without, comparisons, ← ih]
    cases a.without name <;> rfl

/-- Of a join, one side is left alone, or both are left and joined as before. -/
theorem join?_eq_some_iff {op : Connective} {a? b? : Option Condition} {d : Condition} :
    join? op a? b? = some d ↔ a? = none ∧ b? = some d ∨ a? = some d ∧ b? = none ∨
      ∃ a b, a? = some a ∧ b? = some b ∧ joined a op b = d := by
  cases a? with
  | none => simp [join?]
  | some a => cases b? <;> simp [join?]

/-- **A pruned condition keeps its shape**, for what is left of a join binds no less than the join. -/
theorem fits_without (name : Text) {c d : Condition} {level : Level} (h : c.without name = some d)
    (hc : c.Fits P level) : d.Fits P level := by
  induction c generalizing d level with
  | comparison c =>
    rw [without] at h
    split at h
    · cases h
    · cases h
      exact hc
  | group a ih =>
    obtain ⟨a', ha, rfl⟩ := Option.map_eq_some_iff.1 h
    have hinner : a.Fits P .disjunction := by cases level <;> exact hc
    have hleft : a'.Fits P .disjunction := ih ha hinner
    cases level <;> exact hleft
  | joined a op b iha ihb =>
    have hjoin {l m : Level} (ha : a.Fits P l) (hb : b.Fits P m) (hl : ∀ {x : Condition}, x.Fits P l → x.Fits P level)
        (hm : ∀ {x : Condition}, x.Fits P m → x.Fits P level)
        (hboth : ∀ {x y : Condition}, x.Fits P l → y.Fits P m → (joined x op y).Fits P level) : d.Fits P level := by
      obtain ⟨-, hright⟩ | ⟨hleft, -⟩ | ⟨a', b', hleft, hright, rfl⟩ := join?_eq_some_iff.1 h
      · exact hm (ihb hright hb)
      · exact hl (iha hleft ha)
      · exact hboth (iha hleft ha) (ihb hright hb)
    cases level with
    | unit => exact False.elim hc
    | conjunction =>
      cases op with
      | and => exact hjoin hc.1 hc.2 id Fits.conjunction fun hx hy => ⟨hx, hy⟩
      | or => exact False.elim hc
    | disjunction =>
      cases op with
      | and => exact hjoin hc.1 hc.2 Fits.disjunction (fun h => h.conjunction.disjunction) fun hx hy => ⟨hx, hy⟩
      | or => exact hjoin hc.1 hc.2 id Fits.disjunction fun hx hy => ⟨hx, hy⟩

/-! ## What is read -/

theorem fits_foldl {op : Connective} {l m : Level}
    (hjoin : ∀ {a b : Condition}, a.Fits P l → b.Fits P m → (joined a op b).Fits P l) :
    ∀ {others : List Condition} {first : Condition}, first.Fits P l → (∀ c ∈ others, c.Fits P m) →
      (others.foldl (fun a b => joined a op b) first).Fits P l
  | [], _, hfirst, _ => hfirst
  | _ :: _, _, hfirst, hothers => by
    obtain ⟨hc, hothers⟩ := List.forall_mem_cons.1 hothers
    rw [List.foldl_cons]
    exact fits_foldl hjoin (hjoin hfirst hc) hothers

theorem takes_join_fits {op : Connective} {l m : Level} {item : Reader Condition}
    (hitem : item.Takes fun _ c => c.Fits P m) (hml : ∀ {c : Condition}, c.Fits P m → c.Fits P l)
    (hjoin : ∀ {a b : Condition}, a.Fits P l → b.Fits P m → (joined a op b).Fits P l) :
    (joinReader op item).Takes fun _ c => c.Fits P l := by
  have hother : (do blanks; word op.text; blanks; must .noConditionPart item).Takes fun _ c => c.Fits P m :=
    takes_blanks.bind fun _ => (takes_word _).bind fun _ => takes_blanks.bind fun _ => hitem.must _
  have hothers : (many (do blanks; word op.text; blanks; must .noConditionPart item)).Takes
      fun _ others => ∀ c ∈ others, c.Fits P m :=
    hother.many (List.forall_mem_nil _) fun hc hothers => List.forall_mem_cons.2 ⟨hc, hothers⟩
  exact hitem.bind fun hfirst => hothers.bind fun hothers => takes_pure (fits_foldl hjoin (hml hfirst) hothers)

theorem takes_unit_fits (hP : comparisonReader.Takes fun _ x => P x) {inner : Reader Condition}
    (hinner : inner.Takes fun _ c => c.Fits P .disjunction) : (unitReader inner).Takes fun _ c => c.Fits P .unit := by
  have hclose : (do blanks; char ')').Takes fun _ _ => True :=
    takes_blanks.bind fun _ => (takes_char ')').imp fun _ => trivial
  have hcomparison : comparisonReader.Takes fun _ x => (comparison x).Fits P .unit := hP
  exact takes_blanks.bind fun _ => Takes.orElse
    ((takes_char '(').bind fun _ => hinner.bind fun hc => (hclose.must _).bind fun _ => takes_pure hc)
    (.map hcomparison)

/-- **What is read is a disjunction of conjunctions.** -/
theorem takes_fits (hP : comparisonReader.Takes fun _ x => P x) : ∀ depth,
    (readerWithin depth).Takes fun _ c => c.Fits P .disjunction
  | 0 => takes_refuse
  | depth + 1 => by
    have hconjunction : (joinReader .and (unitReader (readerWithin depth))).Takes fun _ c => c.Fits P .conjunction :=
      takes_join_fits (takes_unit_fits hP (takes_fits hP depth)) Fits.conjunction fun ha hb => ⟨ha, hb⟩
    exact takes_join_fits hconjunction Fits.disjunction fun ha hb => ⟨ha, hb⟩

theorem reader_fits (hP : comparisonReader.Takes fun _ x => P x) : reader.Takes fun _ c => c.Fits P .disjunction :=
  fun s => takes_fits hP (s.length + 1) s

end Condition

end SeriesCache
