import SeriesCache.Proofs.Query.Printing.Literal
/-!
# Sums of instants

A sum of instants and durations is read again from its printed form, with its terms joined from the left
(`Expr.again_sums`), and its instant is worked out from the left as well, step by step within 64 bits.  So it stands for
an instant exactly when all of its terms do and no sum on the way is beyond 64 bits, and then for the exact total
(`InstantSum.instants_exact`).
-/
namespace SeriesCache

open Reader
open Text (Lacks)

variable {rest : Text}

/-! ## Printed sums -/

namespace Expr

/-- A term and what is added to it and taken from it, in turn. -/
def sums (first : Expr) (steps : List (Sign × Expr)) : Expr :=
  steps.foldl (fun e step => sum e step.1 step.2) first

def stepText (step : Sign × Expr) : Text := ' ' :: step.1.text ++ ' ' :: step.2.text

/-- The text of a step with what is read of it. -/
def stepItem (step : Sign × Expr) : Text × ((Expr → Expr → Expr) × Expr) :=
  (stepText step, fun a b => sum a step.1 b, step.2)

theorem text_sums : ∀ (first : Expr) (steps : List (Sign × Expr)),
    (sums first steps).text = first.text ++ steps.flatMap stepText
  | first, [] => (List.append_nil _).symm
  | first, step :: steps => by
    have htext : (sum first step.1 step.2).text = first.text ++ stepText step := by
      rw [text, stepText, List.append_assoc]
    rw [sums, List.foldl_cons, ← sums, text_sums, htext, List.flatMap_cons, List.append_assoc]

theorem again_operator (sign : Sign) :
    operatorReader.Again (Lacks Text.isBlank) (' ' :: sign.text ++ [' ']) fun a b => sum a sign b := by
  have hsign : signReader.Again (fun _ => True) sign.text sign := by
    cases sign with
    | plus => exact ((again_char '+' fun _ => True).bind (again_pure _ Sign.plus) fun _ _ => trivial).orElse _
    | minus =>
      exact .else (fun _ _ => rfl) ((again_char '-' fun _ => True).bind (again_pure _ Sign.minus) fun _ _ => trivial)
  refine (again_blanks (t := [' ']) rfl).bind (hsign.bind ((again_blanks (t := [' ']) rfl).bind
    (again_pure _ _) fun _ h => h) fun _ _ => trivial) fun rest _ => ?_
  cases sign <;> rfl

/-- A sign ends the term in front of it. -/
theorem termEnd_step (step : Sign × Expr) (rest : Text) : TermEnd (stepText step ++ rest) := by
  obtain ⟨sign, e⟩ := step
  cases sign with
  | plus => exact termEnd_of_dropBlanks (c := '+') rfl rfl
  | minus => exact termEnd_of_dropBlanks (c := '-') rfl rfl

variable {p : Reader Expr}

/-- The reader finds the term in its printed form, which starts with no blank. -/
structure IsTerm (p : Reader Expr) (e : Expr) : Prop where
  again : p.Again TermEnd e.text e
  ne_nil : e.text ≠ []
  lacks_blank : Lacks Text.isBlank e.text

theorem IsTerm.again_step {step : Sign × Expr} (h : IsTerm p step.2) :
    (stepReader p).Again TermEnd (stepText step) (fun a b => sum a step.1 b, step.2) := by
  have hterm : (do let b ← p; return (fun a b => sum a step.1 b, b) : Reader ((Expr → Expr → Expr) × Expr)).Again TermEnd
      (step.2.text ++ []) (fun a b => sum a step.1 b, step.2) := h.again.bind (again_pure _ _) fun _ h => h
  have hstep := (again_operator step.1).bind (f := fun f => do let b ← p; return (f, b)) hterm fun rest _ => by
    rw [List.append_nil]
    exact h.lacks_blank.append h.ne_nil rest
  rw [List.append_nil, List.append_assoc] at hstep
  exact hstep

/-- **A printed sum is read again**, joined from the left. -/
theorem again_sums {first : Expr} {steps : List (Sign × Expr)} (hfirst : IsTerm p first)
    (hsteps : ∀ step ∈ steps, IsTerm p step.2) :
    (chain p operatorReader).Again SumEnd (sums first steps).text (sums first steps) := by
  have hmany : (many (stepReader p)).Again SumEnd ((steps.map stepItem).flatMap Prod.fst)
      ((steps.map stepItem).map Prod.snd) := by
    refine again_many (F := TermEnd) ?_ ?_ ?_ fun rest hrest => ⟨hrest.1, step_refused hrest⟩
    · exact List.forall_mem_map.2 fun step hstep => (hsteps step hstep).again_step
    · exact List.forall_mem_map.2 fun step _ => List.cons_ne_nil _ _
    · exact List.forall_mem_map.2 fun step _ rest => termEnd_step step rest
  have htail : (do let steps ← many (stepReader p)
                   return steps.foldl (fun a (f, b) => f a b) first : Reader Expr).Again SumEnd
      ((steps.map stepItem).flatMap Prod.fst ++ [])
      (((steps.map stepItem).map Prod.snd).foldl (fun a (f, b) => f a b) first) :=
    hmany.bind (again_pure _ _) fun _ h => h
  rw [List.flatMap_map, List.append_nil, List.map_map, List.foldl_map] at htail
  rw [text_sums]
  refine hfirst.again.bind htail fun rest hrest => ?_
  cases steps with
  | nil => exact hrest.1
  | cons step steps =>
    rw [List.flatMap_cons, List.append_assoc]
    exact termEnd_step step _

end Expr

/-- What is read again as a sum is read again as an operand. -/
theorem Operand.again_ofExpr {e : Expr} (h : Expr.reader.Again Expr.SumEnd e.text e) (hblank : Lacks Text.isBlank e.text) :
    reader.Again Expr.SumEnd e.text (.ofExpr e) := by
  have hread : reader.Again Expr.SumEnd (e.text ++ []) ⟨Text.trim e.text, e⟩ :=
    h.withText.bind (again_pure _ _) fun _ h => h
  rw [List.append_nil] at hread
  obtain ⟨t, ht, -, htext, -⟩ := takesItem_again _ _ [] (by rwa [List.append_nil]) (hread [] ⟨⟨rfl, rfl⟩, rfl⟩)
  rw [List.append_nil, List.append_nil] at ht
  rw [← ht] at htext
  have htrim : Text.trim e.text = e.text := htext.symm
  rwa [htrim] at hread

/-! ## Terms that stand for instants -/

/-- A term of a sum of instants, as it is read.  No duration is read that has no opposite. -/
inductive InstantTerm where
  | integer (value : Int64)
  | duration (value : Duration) (opposite : value.nanos ≠ Int64.minValue)
  | timestamp (text : Text)
  | now

namespace InstantTerm

def expr : InstantTerm → Expr
  | integer n => .literal (.integer n)
  | duration d _ => .literal (.duration d)
  | timestamp s => .literal (.string s)
  | now => .call "now".toList []

/-- The instant of a term; only a timestamp may have none. -/
def value? (now : Int64) : InstantTerm → Option Int64
  | integer n => some n
  | duration d _ => some d.nanos
  | timestamp s => Instant.read? s
  | .now => some now

theorem instant?_expr (now : Int64) (t : InstantTerm) : t.expr.instant? now = t.value? now := by
  cases t <;> rfl

theorem again_now {p : Reader Expr} (hp : ∀ r, p (')' :: r) = .refused) :
    (Expr.termReader p).Again (fun _ => True) "now()".toList (.call "now".toList []) := by
  have hname : Name.bare.Again (Lacks Text.isWordPart) "now".toList "now".toList :=
    fun _ hrest => Name.bare_append (by decide) hrest
  have hclose := (again_blanks (t := []) rfl).seq ((again_char ')' fun _ => True).seq
    (again_pure (fun _ => True) (Expr.call (Text.lower "now".toList) [])) fun _ _ => trivial) fun _ _ => rfl
  have hargs := (again_noArgs hp).bind (f := fun args => do
    blanks; char ')'; return Expr.call (Text.lower "now".toList) args) hclose fun rest _ => ⟨rest, rfl⟩
  have hcall := hname.bind (f := fun function => do
    blanks; char '('
    let args ← separated comma (do blanks; p) <|> pure []
    blanks; char ')'
    return Expr.call (Text.lower function) args)
    ((again_blanks (t := []) rfl).seq ((again_char '(' fun _ => True).seq hargs fun _ _ => trivial) fun _ _ => rfl)
    fun _ _ => rfl
  exact hcall.orElse _

/-- A printed term is read again as the same term. -/
theorem isTerm {p : Reader Expr} (hp : ∀ r, p (')' :: r) = .refused) (t : InstantTerm) :
    Expr.IsTerm (Expr.termReader p) t.expr := by
  cases t with
  | integer n =>
    obtain ⟨hne, hblank⟩ := Signed.text_start n
    exact ⟨Expr.again_literal (Literal.again_number (Numeric.again_text n)) p, hne, hblank⟩
  | duration d hd =>
    obtain ⟨hne, hblank⟩ := Duration.text_start hd
    exact ⟨Expr.again_literal (Literal.again_duration (Duration.again_text hd)) p, hne, hblank⟩
  | timestamp s =>
    exact ⟨Expr.again_literal (Literal.again_string (Literal.again_quoted s) rfl) p, List.cons_ne_nil _ _, rfl⟩
  | now => exact ⟨(again_now hp).mono fun _ _ => trivial, List.cons_ne_nil _ _, rfl⟩

end InstantTerm

/-! ## Exact totals -/

/-- What a sign makes of what stands behind it. -/
def Sign.apply : Sign → Int → Int
  | plus, n => n
  | minus, n => -n

/-- An instant and what is added to it and taken from it in turn, added up from the left without bounds. -/
def Signed.total (first : Int) (steps : List (Sign × Int64)) : Int :=
  steps.foldl (fun sum step => sum + step.1.apply step.2.toInt) first

/-- Every sum on the way, from the first instant on its own to the last step, is within 64 bits. -/
def Signed.StaysWithin (first : Int) (steps : List (Sign × Int64)) : Prop :=
  ∀ done, done <+: steps → -0x8000000000000000 ≤ total first done ∧ total first done < 0x8000000000000000

namespace Signed

variable {first : Int} {step : Sign × Int64} {steps : List (Sign × Int64)}

theorem total_cons (first : Int) (step : Sign × Int64) (steps : List (Sign × Int64)) :
    total first (step :: steps) = total (first + step.1.apply step.2.toInt) steps := rfl

theorem staysWithin_cons_iff : StaysWithin first (step :: steps) ↔
    (-0x8000000000000000 ≤ first ∧ first < 0x8000000000000000) ∧
      StaysWithin (first + step.1.apply step.2.toInt) steps := by
  constructor
  · intro h
    refine ⟨h [] List.nil_prefix, fun done hdone => ?_⟩
    rw [← total_cons]
    exact h (step :: done) (List.cons_prefix_cons.2 ⟨rfl, hdone⟩)
  · rintro ⟨hfirst, h⟩ done hdone
    rcases List.prefix_cons_iff.1 hdone with rfl | ⟨tail, rfl, htail⟩
    · exact hfirst
    · rw [total_cons]
      exact h tail htail

end Signed

/-- One step of a sum is exact, or has no instant. -/
theorem Expr.instant?_sum_eq_some_iff {now x : Int64} {a b : Expr} {sign : Sign} :
    (sum a sign b).instant? now = some x ↔
      ∃ m n, a.instant? now = some m ∧ b.instant? now = some n ∧ x.toInt = m.toInt + sign.apply n.toInt := by
  cases sign with
  | plus =>
    simp only [instant?, Option.bind_eq_bind, Option.bind_eq_some_iff, Signed.add?, Signed.ofInt?_eq_some_iff,
      Sign.apply, exists_and_left]
  | minus =>
    simp only [instant?, Option.bind_eq_bind, Option.bind_eq_some_iff, Signed.sub?, Signed.ofInt?_eq_some_iff,
      Sign.apply, exists_and_left, Int.sub_eq_add_neg]

/-! ## Sums of instants -/

/-- A sum of instants: a term, and terms that are added to it and taken from it in turn. -/
structure InstantSum where
  first : InstantTerm
  steps : List (Sign × InstantTerm)

namespace InstantSum

/-- The terms of a sum, joined from the left. -/
def expr (sum : InstantSum) : Expr := .sums sum.first.expr (sum.steps.map fun step => (step.1, step.2.expr))

/-- Each step's term has its instant, and the signs are the same. -/
def StepsHave (now : Int64) (steps : List (Sign × InstantTerm)) (values : List (Sign × Int64)) : Prop :=
  List.Forall₂ (fun step value => step.1 = value.1 ∧ step.2.value? now = some value.2) steps values

/-- **A sum is worked out from the left, exactly, as long as it stays within 64 bits.** -/
theorem instant?_sums_eq_some_iff {now x : Int64} : ∀ {e : Expr} {steps : List (Sign × InstantTerm)},
    (Expr.sums e (steps.map fun step => (step.1, step.2.expr))).instant? now = some x ↔
      ∃ m values, e.instant? now = some m ∧ StepsHave now steps values ∧ Signed.StaysWithin m.toInt values ∧
        x.toInt = Signed.total m.toInt values
  | e, [] => by
    constructor
    · intro hx
      refine ⟨x, [], hx, .nil, fun done hdone => ?_, rfl⟩
      rw [List.prefix_nil.1 hdone]
      exact ⟨x.le_toInt, x.toInt_lt⟩
    · rintro ⟨m, _, hm, hvalues, -, hx⟩
      cases hvalues
      rwa [Int64.toInt_inj.1 hx]
  | e, (sign, t) :: steps => by
    rw [List.map_cons, Expr.sums, List.foldl_cons, ← Expr.sums, instant?_sums_eq_some_iff]
    constructor
    · rintro ⟨m', values, hm', hvalues, hwithin, hx⟩
      obtain ⟨m, n, hm, hn, hsum⟩ := Expr.instant?_sum_eq_some_iff.1 hm'
      rw [InstantTerm.instant?_expr] at hn
      rw [hsum] at hwithin hx
      refine ⟨m, (sign, n) :: values, hm, .cons ⟨rfl, hn⟩ hvalues, ?_, hx⟩
      exact Signed.staysWithin_cons_iff.2 ⟨⟨m.le_toInt, m.toInt_lt⟩, hwithin⟩
    · rintro ⟨m, _ | ⟨⟨_, n⟩, values⟩, hm, hvalues, hwithin, hx⟩
      · cases hvalues
      · obtain ⟨⟨rfl, hn⟩, htail⟩ := List.forall₂_cons.1 hvalues
        obtain ⟨-, hwithin⟩ := Signed.staysWithin_cons_iff.1 hwithin
        -- the sum so far is one of those that have to be within the range
        obtain ⟨hlow, hhigh⟩ := hwithin [] List.nil_prefix
        obtain ⟨m', hm'⟩ := Signed.exists_toInt_eq hlow hhigh
        rw [← InstantTerm.instant?_expr] at hn
        exact ⟨m', values, Expr.instant?_sum_eq_some_iff.2 ⟨m, n, hm, hn, hm'⟩, htail, hm' ▸ hwithin, hm' ▸ hx⟩

theorem lacks_blank (sum : InstantSum) : Lacks Text.isBlank sum.expr.text := by
  have hfirst := sum.first.isTerm (Expr.reader_close 0)
  rw [expr, Expr.text_sums]
  exact hfirst.lacks_blank.append hfirst.ne_nil _

/-- A printed sum is read again, whatever follows that does not go on with it. -/
theorem again_text (sum : InstantSum) : Operand.reader.Again Expr.SumEnd sum.expr.text (.ofExpr sum.expr) := by
  refine Operand.again_ofExpr (fun rest hrest => ?_) sum.lacks_blank
  refine Expr.again_sums (sum.first.isTerm (Expr.reader_close _)) (List.forall_mem_map.2 fun step _ => ?_) rest hrest
  exact step.2.isTerm (Expr.reader_close _)

/-- **Sums of instants are exact.**  A printed sum is read as itself, its terms joined from the left, and stands for an
instant exactly when each of its terms has one and every sum on the way is within 64 bits; the instant is the exact total
then.  So no sum wraps. -/
theorem instants_exact (now : Int64) (sum : InstantSum) :
    Operand.reader sum.expr.text = .found (.ofExpr sum.expr) [] ∧
    ∀ x, sum.expr.instant? now = some x ↔ ∃ first steps, sum.first.value? now = some first ∧
      StepsHave now sum.steps steps ∧ Signed.StaysWithin first.toInt steps ∧ x.toInt = Signed.total first.toInt steps := by
  refine ⟨?_, fun x => ?_⟩
  · have hread := sum.again_text [] ⟨⟨rfl, rfl⟩, rfl⟩
    rwa [List.append_nil] at hread
  · rw [expr, instant?_sums_eq_some_iff, InstantTerm.instant?_expr]

/-- The order of the steps counts: a sum on the way that does not fit is not made good by the next step. -/
example : (expr ⟨.now, [(.plus, .integer 1), (.minus, .integer 1)]⟩).instant? Int64.maxValue = none ∧
    (expr ⟨.now, [(.minus, .integer 1), (.plus, .integer 1)]⟩).instant? Int64.maxValue = some Int64.maxValue := by
  decide

end InstantSum

end SeriesCache
