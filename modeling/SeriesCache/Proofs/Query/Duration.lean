import SeriesCache.Proofs.Number.Decimal
import SeriesCache.Query.Literal
/-!
# Durations

A duration is spelled as a sign and terms, digits with a unit each (`Duration.Spelling`).  The reader of a query tries
the names of the units in turn and knows nothing of their lengths, the arithmetic searches a table for the first unit
that stands there, and both cut a text into the same terms (`Duration.term_eq`).  What is spelled stands for the exact
sum of its terms, and for nothing when a part of it is beyond 64 bits (`Duration.read?_eq_some_iff`).
-/
namespace SeriesCache.Duration

open Reader
open Text (Lacks)
open Decimal (IsDigits signText)

variable {s rest : Text} {n : Nat} {unit : Text × Nat}

/-! ## Choices and searches -/

section

variable {α : Type} {search : Text → Option (α × Text)}

/-- Passes over what a search finds. -/
def passing (search : Text → Option (α × Text)) : Reader Unit := fun s =>
  (search s).elim .refused fun found => .found () found.2

theorem passing_eq_found_iff : passing search s = .found () rest ↔ ∃ a, search s = some (a, rest) := by
  unfold passing
  cases search s with
  | none => simp
  | some found => simp [Prod.ext_iff]

theorem passing_refused (h : search s = none) : passing search s = .refused := by
  unfold passing
  rw [h]
  rfl

theorem neverFails_passing : (passing search).NeverFails := fun s fault rest h => by
  unfold passing at h
  cases hs : search s <;> rw [hs] at h <;> cases h

end

/-- The first unit of a table that stands at the front of a text, and what follows it. -/
def firstUnit? (table : List (Text × Nat)) (s : Text) : Option (Nat × Text) :=
  table.findSome? fun unit => (Text.dropPrefix? unit.1 s).map (unit.2, ·)

theorem exactly_eq (w : Text) (n : Nat) : exactly w = passing (firstUnit? [(w, n)]) := by
  funext s
  unfold exactly passing firstUnit?
  cases hdrop : Text.dropPrefix? w s <;> simp [hdrop]

/-- A choice with one more name in front searches a table with one more unit in front. -/
theorem exactly_orElse {p : Reader Unit} {table : List (Text × Nat)} (w : Text) (n : Nat)
    (h : p = passing (firstUnit? table)) : (exactly w <|> p) = passing (firstUnit? ((w, n) :: table)) := by
  funext s
  cases hdrop : Text.dropPrefix? w s with
  | some rest =>
    have hfound : exactly w s = .found () rest := by rw [exactly, hdrop]
    rw [orElse_found hfound, passing, firstUnit?, List.findSome?_cons, hdrop]
    rfl
  | none =>
    have hrefused : exactly w s = .refused := by rw [exactly, hdrop]
    rw [orElse_refused hrefused, h, passing, passing, firstUnit?, firstUnit?, List.findSome?_cons, hdrop]
    rfl

/-- **The reader's choice finds the unit that the arithmetic's search finds.** -/
theorem unitName_eq : unitName = passing unitPrefix? :=
  exactly_orElse "ns".toList _ <| exactly_orElse "µs".toList _ <| exactly_orElse "us".toList _ <|
    exactly_orElse "ms".toList _ <| exactly_orElse "u".toList _ <| exactly_orElse "µ".toList _ <|
    exactly_orElse "s".toList _ <| exactly_orElse "m".toList _ <| exactly_orElse "h".toList _ <|
    exactly_orElse "d".toList _ <| exactly_eq "w".toList _

theorem term_eq : term = passing term? := by
  funext s
  by_cases hds : s.takeWhile Char.isDigit = []
  · have hdigits : digits s = .refused := if_pos hds
    have hterm : term? s = none := if_pos hds
    rw [passing_refused hterm]
    exact bind_refused hdigits
  · have hdigits : digits s = .found (s.takeWhile Char.isDigit) (s.dropWhile Char.isDigit) := if_neg hds
    have hterm : term? s = (unitPrefix? (s.dropWhile Char.isDigit)).map fun unit =>
        ((Decimal.value (s.takeWhile Char.isDigit), unit.1), unit.2) := if_neg hds
    have hbind : term s = unitName (s.dropWhile Char.isDigit) := bind_found hdigits
    rw [hbind, unitName_eq, passing, passing, hterm]
    cases unitPrefix? (s.dropWhile Char.isDigit) <;> rfl

/-! ## Units -/

theorem exists_unit (h : unitPrefix? s = some (n, rest)) : ∃ unit ∈ units, s = unit.1 ++ rest ∧ n = unit.2 := by
  obtain ⟨unit, hunit, hdrop⟩ := List.exists_of_findSome?_eq_some h
  obtain ⟨rest, hdrop, heq⟩ := Option.map_eq_some_iff.1 hdrop
  cases heq
  exact ⟨unit, hunit, Text.dropPrefix?_eq_some_iff.1 hdrop, rfl⟩

/-- Only an `s` makes one unit of another. -/
theorem unitPrefix?_append (hunit : unit ∈ units) (hrest : Lacks (· == 's') rest) :
    unitPrefix? (unit.1 ++ rest) = some (unit.2, rest) := by
  have hs : Text.dropPrefix? ['s'] rest = none := by
    cases rest with
    | nil => rfl
    | cons c rest => exact if_neg fun hc => by rw [Lacks, Text.startsWith, ← hc] at hrest; cases hrest
  simp only [units, List.mem_cons, List.not_mem_nil, or_false] at hunit
  rcases hunit with rfl | rfl | rfl | rfl | rfl | rfl | rfl | rfl | rfl | rfl | rfl <;>
    simp [unitPrefix?, units, Text.dropPrefix?, hs]

theorem unitPrefix?_eq_none (h : Lacks (fun c => ['n', 'µ', 'u', 'm', 's', 'h', 'd', 'w'].contains c) s) :
    unitPrefix? s = none := by
  cases s with
  | nil => rfl
  | cons c s =>
    simp only [Lacks, Text.startsWith, List.contains_cons, List.contains_nil, Bool.or_false, Bool.or_eq_false_iff,
      beq_eq_false_iff_ne, ne_eq] at h
    simp [unitPrefix?, units, Text.dropPrefix?, Ne.symm h.1, eq_comm, h]

theorem unit_pos : ∀ unit ∈ units, 0 < unit.2 := by decide

/-! ## Terms -/

/-- A number with its unit. -/
structure Term where
  digits : Text
  unit : Text × Nat
  isDigits : IsDigits digits
  isUnit : unit ∈ units

namespace Term

def text (t : Term) : Text := t.digits ++ t.unit.1

def number (t : Term) : Nat := Decimal.value t.digits

def nanos (t : Term) : Nat := t.number * t.unit.2

theorem number_le_nanos (t : Term) : t.number ≤ t.nanos := Nat.le_mul_of_pos_right _ (unit_pos t.unit t.isUnit)

theorem startsWith_text (t : Term) (rest : Text) : Text.startsWith Char.isDigit (t.text ++ rest) = true :=
  Text.startsWith_append (t.isDigits.startsWith t.unit.1) rest

theorem text_ne_nil (t : Term) : t.text ≠ [] := List.append_ne_nil_of_left_ne_nil t.isDigits.ne_nil _

end Term

theorem exists_term {found : Nat × Nat} (h : term? s = some (found, rest)) :
    ∃ t : Term, s = t.text ++ rest ∧ found = (t.number, t.unit.2) := by
  rw [term?, Decimal.span] at h
  simp only at h
  split at h
  · cases h
  · rename_i hne
    obtain ⟨⟨k, rest⟩, hunit, heq⟩ := Option.map_eq_some_iff.1 h
    cases heq
    obtain ⟨unit, hmem, hs, rfl⟩ := exists_unit hunit
    refine ⟨⟨_, unit, ⟨hne, List.all_takeWhile⟩, hmem⟩, ?_, rfl⟩
    rw [Term.text, List.append_assoc, ← hs, List.takeWhile_append_dropWhile]

theorem term?_text (t : Term) (hrest : Lacks (· == 's') rest) :
    term? (t.text ++ rest) = some ((t.number, t.unit.2), rest) := by
  have hfirst : ∀ unit ∈ units, Text.startsWith Char.isDigit unit.1 = false ∧ unit.1 ≠ [] := by decide
  obtain ⟨hlacks, hne⟩ := hfirst t.unit t.isUnit
  rw [Term.text, List.append_assoc, term?, Decimal.span_digits t.isDigits.all (Lacks.append hlacks hne rest)]
  simp only [if_neg t.isDigits.ne_nil, unitPrefix?_append t.isUnit hrest, Option.map_some]
  rfl

theorem term?_eq_none (h : Lacks Char.isDigit s) : term? s = none := by
  have hspan : Decimal.span s = ([], s) := Decimal.span_digits (t := []) rfl h
  rw [term?, hspan]
  rfl

/-- The terms one after another. -/
def termsText (ts : List Term) : Text := ts.flatMap Term.text

/-- The exact sum of the terms. -/
def sum : List Term → Nat
  | [] => 0
  | t :: ts => t.nanos + sum ts

theorem sum_append (us vs : List Term) : sum (us ++ vs) = sum us + sum vs := by
  induction us with
  | nil => exact (Nat.zero_add _).symm
  | cons t us ih => rw [List.cons_append, sum, sum, ih, Nat.add_assoc]

theorem nanos_le_sum {t : Term} {ts : List Term} (ht : t ∈ ts) : t.nanos ≤ sum ts := by
  obtain ⟨us, vs, rfl⟩ := List.append_of_mem ht
  rw [sum_append, sum]
  omega

theorem lacks_termsText {p : Char → Bool} (hdigit : ∀ n : Fin 10, p (Char.ofNat (48 + n)) = false) (ts : List Term)
    (hrest : Lacks p rest) : Lacks p (termsText ts ++ rest) := by
  cases ts with
  | nil => exact hrest
  | cons t ts =>
    rw [termsText, List.flatMap_cons, List.append_assoc]
    exact Text.lacks_of_digit hdigit (t.startsWith_text _)

theorem startsWith_termsText {ts : List Term} (hne : ts ≠ []) (rest : Text) :
    Text.startsWith Char.isDigit (termsText ts ++ rest) = true := by
  obtain ⟨t, ts, rfl⟩ := List.exists_cons_of_ne_nil hne
  rw [termsText, List.flatMap_cons, List.append_assoc]
  exact t.startsWith_text _

/-- Every digit run, every product with its unit and every running sum is within 64 bits. -/
structure Fits (ts : List Term) : Prop where
  numbers : ∀ t ∈ ts, t.number < 0x8000000000000000
  products : ∀ t ∈ ts, t.nanos < 0x8000000000000000
  sums : ∀ us, us <+: ts → sum us < 0x8000000000000000

/-- Nothing is taken away on the way, so the last sum is the largest of all. -/
theorem fits_iff {ts : List Term} : Fits ts ↔ sum ts < 0x8000000000000000 := by
  refine ⟨fun h => h.sums ts List.prefix_rfl, fun h => ⟨fun t ht => ?_, fun t ht => ?_, ?_⟩⟩
  · exact Nat.lt_of_le_of_lt (Nat.le_trans t.number_le_nanos (nanos_le_sum ht)) h
  · exact Nat.lt_of_le_of_lt (nanos_le_sum ht) h
  · rintro us ⟨vs, rfl⟩
    rw [sum_append] at h
    omega

/-! ## The arithmetic -/

/-- One step adds one term to the total; the number, the product and the sum are each within 64 bits. -/
theorem totalWithin_succ_eq_some_iff {total r : Int64} (hne : s ≠ []) : totalWithin (n + 1) total s = some r ↔
    ∃ (k unit : Nat) (rest : Text) (number nanos next : Int64), term? s = some ((k, unit), rest) ∧ number.toInt = k ∧
      nanos.toInt = number.toInt * unit ∧ next.toInt = total.toInt + nanos.toInt ∧ totalWithin n next rest = some r := by
  rw [totalWithin.eq_3 total s n hne]
  simp only [Option.bind_eq_bind, Option.bind_eq_some_iff, Signed.add?, Signed.ofInt?_eq_some_iff, Prod.exists]
  constructor
  · rintro ⟨k, unit, rest, hterm, number, hnumber, nanos, hnanos, next, hnext, h⟩
    exact ⟨k, unit, rest, number, nanos, next, hterm, hnumber, hnanos, hnext, h⟩
  · rintro ⟨k, unit, rest, number, nanos, next, hterm, hnumber, hnanos, hnext, h⟩
    exact ⟨k, unit, rest, hterm, number, hnumber, nanos, hnanos, next, hnext, h⟩

/-- A running total goes on to the exact sum, and only there. -/
theorem totalWithin_termsText : ∀ (ts : List Term) {n : Nat} {total r : Int64}, (termsText ts).length ≤ n →
    0 ≤ total.toInt → (totalWithin n total (termsText ts) = some r ↔ r.toInt = total.toInt + sum ts)
  | [], n, total, r, _, _ => by
    have hnil : totalWithin n total (termsText []) = some total := totalWithin.eq_1 n total
    rw [hnil, Option.some_inj, ← Int64.toInt_inj, sum]
    omega
  | t :: ts, n, total, r, hn, htotal => by
    have htext : termsText (t :: ts) = t.text ++ termsText ts := List.flatMap_cons
    have hne := List.append_ne_nil_of_left_ne_nil t.text_ne_nil (termsText ts)
    have hlength := List.length_pos_iff.2 t.text_ne_nil
    rw [htext, List.length_append] at hn
    obtain ⟨n, rfl⟩ : ∃ k, n = k + 1 := ⟨n - 1, by omega⟩
    have hlacks : Lacks (· == 's') (termsText ts) :=
      List.append_nil (termsText ts) ▸ lacks_termsText (by decide) ts (show Lacks _ [] from rfl)
    have hproduct : (t.nanos : Int) = t.number * t.unit.2 := Int.natCast_mul t.number t.unit.2
    rw [htext, totalWithin_succ_eq_some_iff hne, term?_text t hlacks, sum]
    constructor
    · rintro ⟨_, _, _, number, nanos, next, hterm, hnumber, hnanos, hnext, h⟩
      cases hterm
      rw [hnumber, ← hproduct] at hnanos
      have hsum := (totalWithin_termsText ts (by omega) (by omega)).1 h
      omega
    · intro h
      have hr := r.toInt_lt
      have hnumber := t.number_le_nanos
      obtain ⟨number, hnumber⟩ := Signed.exists_toInt_eq (n := t.number) (by omega) (by omega)
      obtain ⟨nanos, hnanos⟩ := Signed.exists_toInt_eq (n := t.nanos) (by omega) (by omega)
      obtain ⟨next, hnext⟩ := Signed.exists_toInt_eq (n := total.toInt + nanos.toInt) (by omega) (by omega)
      exact ⟨_, _, _, number, nanos, next, rfl, hnumber, by rw [hnumber, hnanos, hproduct], hnext,
        (totalWithin_termsText ts (by omega) (by omega)).2 (by omega)⟩

theorem exists_terms : ∀ {n : Nat} {total r : Int64} {s : Text}, totalWithin n total s = some r →
    ∃ ts, s = termsText ts
  | _, _, _, [], _ => ⟨[], rfl⟩
  | 0, _, _, _ :: _, h => by cases h
  | n + 1, total, r, c :: s, h => by
    obtain ⟨_, _, _, _, _, _, hterm, -, -, -, h⟩ := (totalWithin_succ_eq_some_iff (List.cons_ne_nil c s)).1 h
    obtain ⟨t, hs, -⟩ := exists_term hterm
    obtain ⟨ts, rfl⟩ := exists_terms h
    exact ⟨t :: ts, hs⟩

theorem total?_termsText {ts : List Term} {r : Int64} (hne : ts ≠ []) :
    total? (termsText ts) = some r ↔ r.toInt = sum ts := by
  have htext : termsText ts ≠ [] := by
    intro hnil
    have hdigit := startsWith_termsText hne []
    rw [hnil] at hdigit
    cases hdigit
  rw [total?, if_neg htext, totalWithin_termsText ts (Nat.le_refl _) (by decide), Int64.toInt_zero, Int.zero_add]

theorem exists_terms_of_total? {r : Int64} (h : total? s = some r) : ∃ ts, ts ≠ [] ∧ s = termsText ts := by
  unfold total? at h
  split at h
  · cases h
  · rename_i hne
    obtain ⟨ts, rfl⟩ := exists_terms h
    refine ⟨ts, ?_, rfl⟩
    rintro rfl
    exact hne rfl

/-! ## Spellings -/

/-- A duration as written: a sign, and terms, at least one. -/
structure Spelling where
  negative : Bool
  terms : List Term
  ne_nil : terms ≠ []

namespace Spelling

def text (w : Spelling) : Text := signText w.negative ++ termsText w.terms

/-- The exact sum with its sign. -/
def nanos (w : Spelling) : Int := if w.negative then -(sum w.terms : Int) else sum w.terms

theorem natAbs_nanos (w : Spelling) : w.nanos.natAbs = sum w.terms := by
  rw [nanos]
  split
  · exact (Int.natAbs_neg _).trans (Int.natAbs_natCast _)
  · exact Int.natAbs_natCast _

theorem startsWith_text (w : Spelling) : Text.startsWith (fun c => c == '-' || c.isDigit) w.text = true := by
  have hdigit := startsWith_termsText w.ne_nil []
  rw [List.append_nil] at hdigit
  exact Decimal.startsWith_sign w.negative hdigit

end Spelling

/-- A sign is put in front of the total of the terms. -/
theorem read?_text (w : Spelling) :
    read? w.text = (total? (termsText w.terms)).map fun r => ⟨if w.negative then -r else r⟩ := by
  obtain ⟨negative, ts, hne⟩ := w
  cases negative with
  | true => rfl
  | false =>
    refine read?.eq_2 _ fun s' hs' => ?_
    have hfirst := startsWith_termsText hne []
    rw [List.append_nil] at hfirst
    replace hs' : termsText ts = '-' :: s' := hs'
    rw [hs'] at hfirst
    cases hfirst

theorem exists_spelling {d : Duration} (h : read? s = some d) : ∃ w : Spelling, s = w.text := by
  unfold read? at h
  split at h
  · obtain ⟨r, hr, -⟩ := Option.map_eq_some_iff.1 h
    obtain ⟨ts, hne, rfl⟩ := exists_terms_of_total? hr
    exact ⟨⟨true, ts, hne⟩, rfl⟩
  · obtain ⟨r, hr, -⟩ := Option.map_eq_some_iff.1 h
    obtain ⟨ts, hne, rfl⟩ := exists_terms_of_total? hr
    exact ⟨⟨false, ts, hne⟩, rfl⟩

/-- What is spelled within 64 bits stands for the exact sum. -/
theorem exists_read?_text (w : Spelling) (hfits : Fits w.terms) :
    ∃ d : Duration, read? w.text = some d ∧ d.nanos.toInt = w.nanos := by
  have hsum := fits_iff.1 hfits
  obtain ⟨r, hr⟩ := Signed.exists_toInt_eq (n := sum w.terms) (by omega) (by omega)
  refine ⟨⟨if w.negative then -r else r⟩, ?_, ?_⟩
  · rw [read?_text, (total?_termsText w.ne_nil).2 hr]
    rfl
  · show (if w.negative then -r else r).toInt = w.nanos
    rw [Spelling.nanos, ← hr]
    split
    · exact (Int64.toInt_neg r).trans (Int.bmod_eq_of_le (by omega) (by omega))
    · rfl

theorem read?_text_eq_none (w : Spelling) (hfits : ¬ Fits w.terms) : read? w.text = none := by
  rw [read?_text, Option.map_eq_none_iff, Option.eq_none_iff_forall_ne_some]
  intro r hr
  have hsum := (total?_termsText w.ne_nil).1 hr
  have hlt := r.toInt_lt
  exact hfits (fits_iff.2 (by omega))

/-- **A text stands for a duration exactly when it spells one that fits**, and then for the exact sum. -/
theorem read?_eq_some_iff {d : Duration} :
    read? s = some d ↔ ∃ w : Spelling, s = w.text ∧ Fits w.terms ∧ d.nanos.toInt = w.nanos := by
  constructor
  · intro h
    obtain ⟨w, rfl⟩ := exists_spelling h
    by_cases hfits : Fits w.terms
    · obtain ⟨d', hd', hnanos⟩ := exists_read?_text w hfits
      obtain rfl : d' = d := Option.some_inj.1 (hd'.symm.trans h)
      exact ⟨w, rfl, hfits, hnanos⟩
    · rw [read?_text_eq_none w hfits] at h
      cases h
  · rintro ⟨w, rfl, hfits, hd⟩
    obtain ⟨d', hd', hnanos⟩ := exists_read?_text w hfits
    obtain ⟨n⟩ := d
    obtain ⟨n'⟩ := d'
    obtain rfl : n' = n := Int64.toInt_inj.1 (hnanos.trans hd.symm)
    exact hd'

/-! ## The reader of a query -/

theorem neverFails_term : term.NeverFails := term_eq ▸ neverFails_passing

theorem takes_term : term.Takes fun u _ => ∃ t : Term, u = t.text := fun s _ rest hs => by
  rw [term_eq] at hs
  obtain ⟨n, hterm⟩ := passing_eq_found_iff.1 hs
  obtain ⟨t, hs, -⟩ := exists_term hterm
  exact ⟨t.text, hs, t, rfl⟩

theorem again_term (t : Term) : term.Again (Lacks (· == 's')) t.text () := fun _ hrest => by
  rw [term_eq]
  exact passing_eq_found_iff.2 ⟨_, term?_text t hrest⟩

theorem term_refused (h : Lacks Char.isDigit s) : term s = .refused := by
  rw [term_eq]
  exact passing_refused (term?_eq_none h)

/-- A word character behind the terms may go on with the last unit, and a digit is the start of one more term. -/
theorem again_terms (ts : List Term) :
    (many term).Again (Lacks Text.isWordPart) (termsText ts) (ts.map fun _ => ()) := by
  have hitems : (ts.map fun t => (t.text, ())).flatMap Prod.fst = termsText ts ∧
      (ts.map fun t => (t.text, ())).map Prod.snd = ts.map fun _ => () := by
    rw [List.flatMap_map, List.map_map]
    exact ⟨rfl, rfl⟩
  rw [← hitems.1, ← hitems.2]
  refine again_many (F := Lacks (· == 's')) ?_ ?_ ?_ fun rest hrest => ⟨?_, term_refused ?_⟩
  · exact List.forall_mem_map.2 fun t _ => again_term t
  · exact List.forall_mem_map.2 fun t _ => t.text_ne_nil
  · exact List.forall_mem_map.2 fun t _ rest => Text.lacks_of_digit (by decide) (t.startsWith_text rest)
  · exact hrest.imp fun c hc => by rw [beq_iff_eq.1 hc]; rfl
  · exact hrest.imp fun c hc => Text.forall_digit (P := fun c => Text.isWordPart c = true) (by decide) hc

theorem takes_signedTerms : signedTerms.Takes fun t _ => ∃ w : Spelling, t = w.text := by
  have hmany : (many term).Takes fun u _ => ∃ ts, u = termsText ts := by
    refine takes_term.many ⟨[], rfl⟩ ?_
    rintro _ _ _ _ ⟨t, rfl⟩ ⟨ts, rfl⟩
    exact ⟨t :: ts, rfl⟩
  refine Decimal.takes_sign.bind fun {_ sign} hsign => takes_term.bind fun ht => hmany.imp fun hts => ?_
  obtain ⟨t, rfl⟩ := ht
  obtain ⟨ts, rfl⟩ := hts
  exact ⟨⟨sign.isSome, t :: ts, List.cons_ne_nil t ts⟩, by rw [hsign]; rfl⟩

theorem again_signedTerms (w : Spelling) : ∃ found, signedTerms.Again (Lacks Text.isWordPart) w.text found := by
  obtain ⟨negative, ts, hne⟩ := w
  obtain ⟨t, ts, rfl⟩ := List.exists_cons_of_ne_nil hne
  refine ⟨ts.map fun _ => (), (Decimal.again_sign negative).bind
    ((again_term t).bind (again_terms ts) fun rest hrest => ?_) fun rest _ => ?_⟩
  · exact lacks_termsText (by decide) ts (hrest.imp fun c hc => by rw [beq_iff_eq.1 hc]; rfl)
  · exact Text.lacks_of_digit (by decide) (startsWith_termsText hne rest)

/-- **The reader finds what is spelled, up to its end**, where no word goes on. -/
theorem spelling_eq_found_iff {c : Text} : spelling s = .found c rest ↔
    ∃ w : Spelling, c = w.text ∧ s = w.text ++ rest ∧ Lacks Text.isWordPart rest := by
  unfold spelling
  rw [bind_eq_found_iff]
  constructor
  · rintro ⟨⟨t, found⟩, r, htext, hend⟩
    obtain ⟨⟨⟩, r', hword, hpure⟩ := bind_eq_found_iff.1 hend
    obtain ⟨rfl, hlacks⟩ := wordEnd_eq_found_iff.1 hword
    cases hpure
    obtain ⟨u, rfl, rfl, w, rfl⟩ := takes_withText takes_signedTerms _ _ _ htext
    exact ⟨w, rfl, rfl, hlacks⟩
  · rintro ⟨w, rfl, rfl, hlacks⟩
    obtain ⟨found, hagain⟩ := again_signedTerms w
    exact ⟨(w.text, found), rest, hagain.withText rest hlacks,
      bind_eq_found_iff.2 ⟨(), rest, wordEnd_eq_found_iff.2 ⟨rfl, hlacks⟩, rfl⟩⟩

/-- What has no term behind the sign in front is no duration. -/
theorem reader_refused_of_term (negative : Bool) (h : term? s = none) (hsign : Lacks (· == '-') s) :
    reader (signText negative ++ s) = .refused := by
  have hterm : term s = .refused := by
    rw [term_eq]
    exact passing_refused h
  have hterms : signedTerms (signText negative ++ s) = .refused :=
    (bind_found (Decimal.again_sign negative s hsign)).trans (bind_refused hterm)
  have hspelling : spelling (signText negative ++ s) = .refused := by
    refine bind_refused ?_
    rw [withText, hterms]
  rw [reader, convert, hspelling]

theorem neverFails_spelling : spelling.NeverFails := by
  have hterms : signedTerms.NeverFails :=
    (neverFails_exactly ['-']).optional.bind fun _ => neverFails_term.bind fun _ => neverFails_term.many
  exact hterms.withText.bind fun _ => neverFails_wordEnd.bind fun _ => neverFails_pure _

theorem reader_eq_found_iff {d : Duration} : reader s = .found d rest ↔
    ∃ w : Spelling, s = w.text ++ rest ∧ Lacks Text.isWordPart rest ∧ read? w.text = some d := by
  rw [reader, convert_eq_found_iff]
  constructor
  · rintro ⟨c, hspelling, hread⟩
    obtain ⟨w, rfl, hs, hlacks⟩ := spelling_eq_found_iff.1 hspelling
    exact ⟨w, hs, hlacks, hread⟩
  · rintro ⟨w, hs, hlacks, hread⟩
    exact ⟨w.text, spelling_eq_found_iff.2 ⟨w, rfl, hs, hlacks⟩, hread⟩

theorem reader_eq_failed_iff {fault : Fault} {r : Text} : reader s = .failed fault r ↔
    fault = .durationRange ∧ r = s ∧
      ∃ (w : Spelling) (rest : Text), s = w.text ++ rest ∧ Lacks Text.isWordPart rest ∧ ¬ Fits w.terms := by
  rw [reader, neverFails_spelling.convert_eq_failed_iff]
  constructor
  · rintro ⟨hfault, hr, c, rest, hspelling, hnone⟩
    obtain ⟨w, rfl, hs, hlacks⟩ := spelling_eq_found_iff.1 hspelling
    refine ⟨hfault, hr, w, rest, hs, hlacks, fun hfits => ?_⟩
    obtain ⟨d, hd, -⟩ := exists_read?_text w hfits
    rw [hnone] at hd
    cases hd
  · rintro ⟨hfault, hr, w, rest, hs, hlacks, hfits⟩
    exact ⟨hfault, hr, w.text, rest, spelling_eq_found_iff.2 ⟨w, rfl, hs, hlacks⟩, read?_text_eq_none w hfits⟩

example : reader "-1ms2u3µs, 5".toList = .found ⟨-1005000⟩ ", 5".toList := by decide +kernel

example : reader "9223372036854775807h".toList = .failed .durationRange "9223372036854775807h".toList := by
  decide +kernel

/-- **Durations are exact.**  A text stands for a duration when it is a sign and terms within 64 bits, and then for
their signed sum.  The reader of a query finds what the text it takes stands for, and it is at fault where what is spelled
in front of it stands for nothing because a part of it is beyond 64 bits. -/
theorem durations_exact (s : Text) :
    (∀ d : Duration, read? s = some d ↔ ∃ w : Spelling, s = w.text ∧ Fits w.terms ∧ d.nanos.toInt = w.nanos) ∧
      (∀ (d : Duration) (rest : Text), reader s = .found d rest ↔
        ∃ c, s = c ++ rest ∧ Text.startsWith Text.isWordPart rest = false ∧ read? c = some d) ∧
      ∀ (fault : Fault) (r : Text), reader s = .failed fault r ↔ fault = .durationRange ∧ r = s ∧
        ∃ (w : Spelling) (rest : Text), s = w.text ++ rest ∧ Text.startsWith Text.isWordPart rest = false ∧
          ¬ Fits w.terms ∧ read? w.text = none := by
  refine ⟨fun d => read?_eq_some_iff, fun d rest => reader_eq_found_iff.trans ⟨?_, ?_⟩, fun fault r =>
    reader_eq_failed_iff.trans (and_congr_right fun _ => and_congr_right fun _ => ⟨?_, ?_⟩)⟩
  · rintro ⟨w, hs, hlacks, hread⟩
    exact ⟨w.text, hs, hlacks, hread⟩
  · rintro ⟨c, hs, hlacks, hread⟩
    obtain ⟨w, rfl⟩ := exists_spelling hread
    exact ⟨w, hs, hlacks, hread⟩
  · rintro ⟨w, rest, hs, hlacks, hfits⟩
    exact ⟨w, rest, hs, hlacks, hfits, read?_text_eq_none w hfits⟩
  · rintro ⟨w, rest, hs, hlacks, hfits, -⟩
    exact ⟨w, rest, hs, hlacks, hfits⟩

end SeriesCache.Duration
