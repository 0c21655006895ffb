import SeriesCache.Proofs.Query.Again.Condition
import SeriesCache.Proofs.Query.Again.Field
import SeriesCache.Proofs.Query.Printing
import SeriesCache.Proofs.Query.Printing.Literal
/-!
# Reading printed fields

A field that was read is read again from its printed form exactly when it is legible (`Field.prints`): a name that is a
truth value needs no quotes and prints without, but then a literal is read in its place.
-/
namespace SeriesCache

open Reader
open Text (Lacks)

variable {s rest : Text}

/-! ## Names and truth values -/

/-- Whether a name is the word for a truth value. -/
def Name.isTruth (n : Text) : Bool := Text.sameWord "TRUE".toList n || Text.sameWord "FALSE".toList n

theorem Name.isBare_congr {w n : Text} (h : Text.lower w = Text.lower n) : isBare w = isBare n := by
  have hstart : Text.startsWith Text.isWordStart w = Text.startsWith Text.isWordStart n := by
    rw [← Text.startsWith_lower, h, Text.startsWith_lower]
  have hparts : w.all Text.isWordPart = n.all Text.isWordPart := by
    rw [← Text.all_isWordPart_lower, h, Text.all_isWordPart_lower]
  unfold isBare
  rw [hstart, hparts, isReserved_congr h]

theorem Name.isBare_of_isTruth {n : Text} (h : isTruth n = true) : isBare n = true := by
  rcases Bool.or_eq_true_iff.1 h with h | h
  · exact (isBare_congr (beq_iff_eq.1 h)).symm.trans (by decide)
  · exact (isBare_congr (beq_iff_eq.1 h)).symm.trans (by decide)

/-- A printed name is read as a literal exactly when it is a truth value. -/
theorem Literal.reader_name_refused {n : Text} (h : Name.isTruth n = false) (hrest : Lacks Text.isWordPart rest) :
    reader (Name.text n ++ rest) = .refused := by
  obtain ⟨htrue, hfalse⟩ := Bool.or_eq_false_iff.1 h
  unfold Name.text
  split
  · rename_i hbare
    obtain ⟨hstart, hparts, -⟩ := Name.isBare_iff.1 hbare
    rw [reader_word hstart hparts hrest, htrue, hfalse]
    rfl
  · rw [reader_eq (show Lacks opens (Quoted.text '"' n ++ rest) from rfl)]
    exact map_refused (booleanReader_refused rfl)

theorem Literal.reader_truth {n : Text} (h : Name.isTruth n = true) (hrest : Lacks Text.isWordPart rest) :
    reader (Name.text n ++ rest) ≠ .refused := by
  have hbare := Name.isBare_of_isTruth h
  obtain ⟨hstart, hparts, -⟩ := Name.isBare_iff.1 hbare
  unfold Name.text
  rw [if_pos hbare, reader_word hstart hparts hrest]
  rcases Bool.or_eq_true_iff.1 h with h | h
  · rw [h]
    exact fun h => by cases h
  · rw [h]
    split <;> exact fun h => by cases h

namespace FieldExpr

/-! ## Legible expressions -/

mutual

/-- Whether the printed form tells the expression: no name in it is a truth value, and every literal is legible. -/
def isLegible : FieldExpr → Bool
  | wildcard => true
  | name n _ => !Name.isTruth n
  | call _ args => argsAreLegible args
  | literal l => l.isLegible

def argsAreLegible : List FieldExpr → Bool
  | [] => true
  | a :: args => a.isLegible && argsAreLegible args

end

theorem argsAreLegible_iff : ∀ {args : List FieldExpr}, argsAreLegible args = true ↔ ∀ a ∈ args, a.isLegible = true
  | [] => by simp [argsAreLegible]
  | a :: args => by simp [argsAreLegible, @argsAreLegible_iff args]

theorem argsText_eq : ∀ args : List FieldExpr, argsText args = Text.join ", ".toList (args.map text)
  | [] => rfl
  | [a] => rfl
  | a :: b :: args => by
    rw [argsText, argsText_eq (b :: args)]
    show _ = a.text ++ ", ".toList ++ Text.join ", ".toList ((b :: args).map text)
    rw [List.append_assoc]
    rfl

/-! ## What is found -/

/-- A call is read as one, a literal as a literal, and a name only where no literal is. -/
theorem cases_of_found {d : Nat} {e : FieldExpr} (h : readerWithin (d + 1) s = .found e rest) :
    (∃ f args, e = call f args ∧ callReader (readerWithin d) s = .found e rest) ∨ e = wildcard ∨
      (∃ l, e = literal l ∧ Literal.reader s = .found l rest) ∨
        ∃ n t, e = name n t ∧ Literal.reader s = .refused := by
  rcases orElse_eq_found_iff.1 h with hcall | ⟨-, h⟩
  · refine .inl ?_
    obtain ⟨f, _, -, h⟩ := bind_eq_found_iff.1 hcall
    obtain ⟨_, _, -, h⟩ := bind_eq_found_iff.1 h
    obtain ⟨_, _, -, h⟩ := bind_eq_found_iff.1 h
    obtain ⟨args, _, -, h⟩ := bind_eq_found_iff.1 h
    obtain ⟨_, _, -, h⟩ := bind_eq_found_iff.1 h
    cases h
    exact ⟨_, _, rfl, hcall⟩
  rcases orElse_eq_found_iff.1 h with hstar | ⟨-, h⟩
  · obtain ⟨_, _, -, h⟩ := bind_eq_found_iff.1 hstar
    cases h
    exact .inr (.inl rfl)
  rcases orElse_eq_found_iff.1 h with hliteral | ⟨hliteral, h⟩
  · obtain ⟨l, hl, rfl⟩ := map_eq_found_iff.1 hliteral
    exact .inr (.inr (.inl ⟨l, rfl, hl⟩))
  · obtain ⟨n, _, -, h⟩ := bind_eq_found_iff.1 h
    obtain ⟨t, _, -, h⟩ := bind_eq_found_iff.1 h
    cases h
    exact .inr (.inr (.inr ⟨n, t, rfl, map_eq_refused_iff.1 hliteral⟩))

/-! ## Leaves -/

variable {t : Text} {e : FieldExpr}

/-- What is read as a leaf, with nothing behind it, is read again. -/
theorem again_of_leaf (hblank : Lacks Text.isBlank t) (h : leafReader t = .found e []) {d : Nat} (hd : t.length < d) :
    (readerWithin d).Again Expr.TermEnd t e := by
  obtain ⟨u, hu, -, hagain, hother⟩ := takes_leaf_again t e [] hblank h
  rw [List.append_nil] at hu
  subst hu
  cases d with
  | zero => cases hd
  | succ d =>
    exact .else (fun rest hrest => (hother rest hrest).2 _)
      (.else (fun rest hrest => bind_refused (char_refused (hother rest hrest).1)) hagain)

/-- The printed form starts an item, and is read again exactly when it is legible. -/
structure IsPrinted (e : FieldExpr) : Prop where
  ne_nil : e.text ≠ []
  lacks_blank : Lacks Text.isBlank e.text
  prints : ∀ d, e.text.length < d → (readerWithin d).Prints Expr.TermEnd e.text e (e.isLegible = true)

theorem isPrinted_wildcard : wildcard.IsPrinted := by
  refine ⟨List.cons_ne_nil _ _, rfl, fun d hd => ⟨fun _ rest _ => ?_, fun _ _ _ _ => rfl⟩⟩
  cases d with
  | zero => cases hd
  | succ d => rfl

theorem isPrinted_literal {l : Literal} (h : l.IsPrinted) : (literal l).IsPrinted := by
  refine ⟨h.ne_nil, h.lacks_blank, fun d hd => ⟨fun hlegible => ?_, fun rest r hrest hfound => ?_⟩⟩
  · have hread := h.prints.again hlegible [] rfl
    rw [List.append_nil] at hread
    exact again_of_leaf h.lacks_blank (orElse_found (map_found hread)) hd
  · cases d with
    | zero => cases hd
    | succ d =>
      rcases cases_of_found hfound with ⟨_, _, h', -⟩ | h' | ⟨m, h', hread⟩ | ⟨_, _, h', -⟩ <;> cases h'
      exact h.prints.only rest r hrest.1 hread

/-- What is printed of a name's type. -/
def typeText : Option FieldType → Text
  | none => []
  | some t => ':' :: ':' :: t.text

theorem name_text_eq (n : Text) (type : Option FieldType) : (name n type).text = Name.text n ++ typeText type := by
  cases type with
  | none => exact (List.append_nil _).symm
  | some t => rfl

theorem lacks_typeText {p : Char → Bool} (hp : p ':' = false) (type : Option FieldType) (hrest : Lacks p rest) :
    Lacks p (typeText type ++ rest) := by
  cases type with
  | none => exact hrest
  | some t => exact hp

theorem typeReader_alone (type : Option FieldType) : optional colonTypeReader (typeText type) = .found type [] := by
  cases type with
  | none => rfl
  | some t => cases t <;> rfl

theorem isPrinted_name (n : Text) (type : Option FieldType) : (name n type).IsPrinted := by
  obtain ⟨hne, hblank⟩ := Name.text_start n
  have hword (rest : Text) (hrest : Expr.TermEnd rest) : Lacks Text.isWordPart (typeText type ++ rest) :=
    lacks_typeText rfl type hrest.lacks_word
  have hempty : typeText type = typeText type ++ [] := (List.append_nil _).symm
  refine ⟨?_, ?_, fun d hd => ⟨fun hlegible => ?_, fun rest r hrest hfound => ?_⟩⟩
  · rw [name_text_eq]
    exact List.append_ne_nil_of_left_ne_nil hne _
  · rw [name_text_eq]
    exact hblank.append hne _
  · have htruth : Name.isTruth n = false := by simpa [isLegible] using hlegible
    have hend : Lacks Text.isWordPart (typeText type) := hempty ▸ lacks_typeText rfl type rfl
    have hleaf : leafReader (Name.text n ++ typeText type) = .found (name n type) [] :=
      (orElse_refused (map_refused (Literal.reader_name_refused htruth hend))).trans
        ((bind_found (Name.again_text n _ hend)).trans (bind_found (typeReader_alone type)))
    rw [name_text_eq] at hd ⊢
    exact again_of_leaf (hblank.append hne _) hleaf hd
  · cases d with
    | zero => cases hd
    | succ d =>
      rcases cases_of_found hfound with ⟨_, _, h', -⟩ | h' | ⟨_, h', -⟩ | ⟨_, _, h', hread⟩ <;> cases h'
      rw [name_text_eq, List.append_assoc] at hread
      by_contra hlegible
      exact Literal.reader_truth (by simpa [isLegible] using hlegible) (hword rest hrest) hread

/-! ## Calls -/

/-- Arguments are read again exactly when all of them are legible. -/
theorem args_prints {args : List FieldExpr} {d : Nat} (hargs : ∀ a ∈ args, a.IsPrinted)
    (hd : ∀ a ∈ args, a.text.length < d) : (separated comma (do blanks; readerWithin d) <|> pure []).Prints AtClose
      (argsText args) args (argsAreLegible args = true) := by
  have hclose (rest : Text) (hrest : AtClose rest) : Expr.TermEnd rest ∧ Lacks (· == ',') (Text.dropBlanks rest) := by
    refine ⟨(Expr.SumEnd.of_atNext hrest.atNext).1, ?_⟩
    obtain ⟨r, hr⟩ := hrest
    rw [hr]
    rfl
  rw [argsText_eq]
  by_cases hne : args = []
  · subst hne
    exact (again_noArgs (reader_close d)).prints.imp (by simp [argsAreLegible])
  · have hitem (a : FieldExpr) (ha : a ∈ args) : (do blanks; readerWithin d).Prints Expr.TermEnd a.text a
        (a.isLegible = true) := ((hargs a ha).prints d (hd a ha)).blanks (hargs a ha).ne_nil (hargs a ha).lacks_blank
    have hlist := Prints.separated hitem (fun _ => rfl)
      (fun rest => (Expr.SumEnd.of_atNext ⟨',', rest, rfl, .inl rfl⟩).1) hclose hne
    refine (hlist.orElse fun s r h => ?_).imp argsAreLegible_iff.symm
    cases h
    exact hne rfl

theorem length_le_argsText : ∀ {args : List FieldExpr} {a : FieldExpr}, a ∈ args → a.text.length ≤ (argsText args).length
  | [b], a, h => by rw [List.mem_singleton.1 h, argsText]
  | b :: c :: args, a, h => by
    rw [argsText, List.length_append]
    rcases List.mem_cons.1 h with rfl | h
    · omega
    · have := length_le_argsText h
      simp only [List.length_cons]
      omega

/-- A printed call is read again exactly when its arguments are. -/
theorem call_prints {p : Reader FieldExpr} {f : Text} {args : List FieldExpr} {L : Prop} (hbare : Name.isBare f = true)
    (hlower : Text.lower f = f)
    (hargs : (separated comma (do blanks; p) <|> pure []).Prints AtClose (argsText args) args L) :
    (callReader p).Prints (fun _ => True) (f ++ '(' :: (argsText args ++ [')'])) (call f args) L := by
  have hclose (rest : Text) : AtClose ([')'] ++ rest) := atClose_blanks (t := []) rfl rest
  refine ⟨fun hL => ?_, fun rest r _ hfound => ?_⟩
  · have hname : Name.bare.Again (Lacks Text.isWordPart) f f := fun rest hrest => Name.bare_append hbare hrest
    have hend : (do blanks; char ')').Again (fun _ => True) ([] ++ [')']) () :=
      (again_blanks rfl).bind (again_char ')' _) fun _ _ => rfl
    have hread : (callReader p).Again (fun _ => True) (f ++ ([] ++ (['('] ++ (argsText args ++ ([] ++ [')'] ++ [])))))
        (call (Text.lower f) args) := by
      refine hname.bind ((again_blanks (t := []) rfl).bind ((again_char '(' fun _ => True).bind ((hargs.again hL).bind
        ((hend.must _).bind (again_pure _ _) fun _ _ => trivial) ?_) ?_) ?_) ?_
      · exact fun rest _ => hclose rest
      · exact fun _ _ => trivial
      · exact fun _ _ => rfl
      · exact fun _ _ => rfl
    rwa [hlower] at hread
  · have htext : f ++ '(' :: (argsText args ++ [')']) ++ rest = f ++ '(' :: (argsText args ++ ([')'] ++ rest)) := by simp
    rw [htext] at hfound
    obtain ⟨g, r₁, hname, h⟩ := bind_eq_found_iff.1 hfound
    rw [Name.bare_append hbare rfl] at hname
    cases hname
    obtain ⟨_, r₂, hblanks, h⟩ := bind_eq_found_iff.1 h
    cases hblanks
    obtain ⟨_, r₃, hopen, h⟩ := bind_eq_found_iff.1 h
    cases hopen
    obtain ⟨args', r₄, hread, h⟩ := bind_eq_found_iff.1 h
    obtain ⟨_, r₅, -, h⟩ := bind_eq_found_iff.1 h
    obtain ⟨-, rfl⟩ := call.inj (Outcome.found.inj h).1
    exact hargs.only _ r₄ (hclose rest) hread

/-- The function of a call that was read is a bare name in lower case. -/
theorem isPrinted_call {f : Text} {args : List FieldExpr} (hbare : Name.isBare f = true) (hlower : Text.lower f = f)
    (hargs : ∀ a ∈ args, a.IsPrinted) : (call f args).IsPrinted := by
  obtain ⟨hstart, hparts, -⟩ := Name.isBare_iff.1 hbare
  have hsolo : Name.Solo f := Name.solo_of_all (by rintro rfl; cases hstart) hparts
  have htext : (call f args).text = f ++ '(' :: (argsText args ++ [')']) := by rw [text]; simp
  have hblank : Lacks Text.isBlank f := hsolo.lacks_white.imp fun _ => Text.isWhite_of_isBlank
  refine ⟨?_, ?_, fun d hd => ?_⟩
  · rw [htext]
    exact List.append_ne_nil_of_left_ne_nil hsolo.ne_nil _
  · rw [htext]
    exact hblank.append hsolo.ne_nil _
  · rw [htext] at hd ⊢
    cases d with
    | zero => cases hd
    | succ d =>
      have hlength (a : FieldExpr) (ha : a ∈ args) : a.text.length < d := by
        have := length_le_argsText ha
        simp only [List.length_append, List.length_cons] at hd
        omega
      have hcall := call_prints hbare hlower (args_prints hargs hlength)
      refine ⟨fun h => ((hcall.again h).orElse _).mono fun _ _ => trivial, fun rest r _ hfound => ?_⟩
      rcases cases_of_found hfound with ⟨_, _, -, hread⟩ | h' | ⟨_, h', -⟩ | ⟨_, _, h', -⟩
      · exact hcall.only rest r trivial hread
      · cases h'
      · cases h'
      · cases h'

/-- **An expression that was read is read again from its printed form exactly when it is legible.** -/
theorem takes_isPrinted : ∀ depth, (readerWithin depth).Takes fun _ e => e.IsPrinted
  | 0 => takes_refuse
  | depth + 1 => by
    have hitem : (do blanks; readerWithin depth).Takes fun _ e => e.IsPrinted :=
      takes_blanks.bind fun _ => takes_isPrinted depth
    have hargs : (separated comma (do blanks; readerWithin depth) <|> pure []).Takes fun _ args =>
        ∀ a ∈ args, a.IsPrinted :=
      (Takes.separated hitem (takes_comma.imp fun _ => trivial)).orElse (takes_pure (List.forall_mem_nil _))
    have hclose : (do blanks; char ')').Takes fun _ _ => True :=
      takes_blanks.bind fun _ => (takes_char ')').imp fun _ => trivial
    have hcall : (callReader (readerWithin depth)).Takes fun _ e => e.IsPrinted :=
      Scan.takes_bare.bind fun hf => takes_blanks.bind fun _ => (takes_char '(').bind fun _ => hargs.bind fun hargs =>
        (hclose.must _).bind fun _ => takes_pure (isPrinted_call ((Name.isBare_congr (Text.lower_lower _)).trans hf.2)
          (Text.lower_lower _) hargs)
    have hwildcard : (do char '*'; return wildcard : Reader FieldExpr).Takes fun _ e => e.IsPrinted :=
      (takes_char '*').bind fun _ => takes_pure isPrinted_wildcard
    have hliteral : (literal <$> Literal.reader).Takes fun _ e => e.IsPrinted :=
      .map (Literal.takes_isPrinted.imp isPrinted_literal)
    have hname : nameReader.Takes fun _ e => e.IsPrinted :=
      (Scan.takes_name Scan.isKeyword_from).bind fun _ => (takes_colonType_again Scan.isKeyword_from).bind fun _ =>
        takes_pure (isPrinted_name _ _)
    exact hcall.orElse (hwildcard.orElse (hliteral.orElse hname))

theorem IsPrinted.reader {e : FieldExpr} (h : e.IsPrinted) :
    FieldExpr.reader.Prints Expr.TermEnd e.text e (e.isLegible = true) := by
  have hdepth (rest : Text) : e.text.length < (e.text ++ rest).length + 1 := by
    rw [List.length_append]
    omega
  exact ⟨fun hlegible rest hrest => (h.prints _ (hdepth rest)).again hlegible rest hrest,
    fun rest r hrest hfound => (h.prints _ (hdepth rest)).only rest r hrest hfound⟩

end FieldExpr

/-! ## Fields -/

namespace Field

/-- What is printed of a field's label. -/
def labelText : Option Text → Text
  | none => []
  | some n => ' ' :: ("AS".toList ++ ' ' :: Name.text n)

theorem text_eq (f : Field) : f.text = f.expr.text ++ labelText f.label := by
  unfold text
  cases f.label <;> rfl

theorem termEnd_labelText (label : Option Text) {rest : Text} (hrest : End rest) : Expr.TermEnd (labelText label ++ rest) := by
  cases label with
  | none => exact hrest.1
  | some n => exact ⟨rfl, rfl⟩

theorem again_label (label : Option Text) : (optional labelReader).Again End (labelText label) label := by
  cases label with
  | none => exact again_optional_none fun rest hrest => someBlanks_bind_refused (bind_refused hrest.2)
  | some n =>
    have hname : Name.reader.Again (Lacks Text.isWordPart) (' ' :: Name.text n) n := fun rest hrest =>
      (rfl : Name.reader (' ' :: Name.text n ++ rest) = Name.reader (Name.text n ++ rest)).trans
        (Name.again_text n rest hrest)
    have hlabel : labelReader.Again (Lacks Text.isWordPart) ([' '] ++ ("AS".toList ++ ' ' :: Name.text n)) n :=
      (again_someBlanks rfl (by decide)).bind ((again_word rfl).bind (hname.must _) fun _ _ => rfl) fun _ _ => rfl
    exact hlabel.optional.mono fun rest hrest => hrest.1.lacks_word

theorem takes_printed : reader.Takes fun _ f => f.expr.IsPrinted := by
  have hexpr : FieldExpr.reader.Takes fun _ e => e.IsPrinted := fun s => FieldExpr.takes_isPrinted (s.length + 1) s
  have hlabel : (optional labelReader).Takes fun _ _ => True := takes_optionalLabel_again.imp fun _ => trivial
  exact takes_blanks.bind fun _ => hexpr.bind fun he => hlabel.bind fun _ => takes_pure he

variable {f : Field}

theorem text_start (h : f.expr.IsPrinted) : f.text ≠ [] ∧ Lacks Text.isBlank f.text := by
  rw [text_eq]
  exact ⟨List.append_ne_nil_of_left_ne_nil h.ne_nil _, h.lacks_blank.append h.ne_nil _⟩

/-- A field is read again from its printed form exactly when it is legible. -/
theorem prints (h : f.expr.IsPrinted) : reader.Prints End f.text f (f.expr.isLegible = true) := by
  obtain ⟨e, label⟩ := f
  have hlabel : (do let label ← optional labelReader; return ⟨e, label⟩ : Reader Field).Again End (labelText label ++ [])
      ⟨e, label⟩ := (again_label label).bind (again_pure _ _) fun _ h => h
  have hfield : (do let e ← FieldExpr.reader; let label ← optional labelReader; return ⟨e, label⟩ : Reader Field).Prints
      End (e.text ++ (labelText label ++ [])) ⟨e, label⟩ (e.isLegible = true ∧ True) := by
    refine h.reader.bind hlabel.prints (fun rest hrest => ?_) fun e' s r h => ?_
    · rw [List.append_nil]
      exact termEnd_labelText label hrest
    · obtain ⟨label', s', -, h⟩ := bind_eq_found_iff.1 h
      cases h
      rfl
  obtain ⟨hne, hblank⟩ := text_start (f := ⟨e, label⟩) h
  rw [text_eq] at hne hblank ⊢
  rw [List.append_nil] at hfield
  exact (hfield.blanks hne hblank).imp (and_iff_left trivial)

end Field

/-- **The fields of a statement are read again from their printed form exactly when all of them are legible.** -/
theorem Select.takes_fields_prints : fieldsReader.Takes fun _ fields => fieldsReader.Prints Field.ListEnd
    (' ' :: Text.join ", ".toList (fields.map Field.text)) fields (∀ f ∈ fields, f.expr.isLegible = true) := by
  have hlist : (separated comma Field.reader).Takes fun _ fields => fields ≠ [] ∧ ∀ f ∈ fields, f.expr.IsPrinted := by
    have hitem : (do comma; Field.reader).Takes fun _ f => f.expr.IsPrinted := takes_comma.bind fun _ => Field.takes_printed
    have hmany : (many (do comma; Field.reader)).Takes fun _ fields => ∀ f ∈ fields, f.expr.IsPrinted :=
      hitem.many (List.forall_mem_nil _) fun hf hfields => List.forall_mem_cons.2 ⟨hf, hfields⟩
    exact Field.takes_printed.bind fun hf => hmany.bind fun hfields =>
      takes_pure ⟨List.cons_ne_nil _ _, List.forall_mem_cons.2 ⟨hf, hfields⟩⟩
  refine takes_someBlanks.bind fun _ => hlist.imp fun {_ fields} ⟨hne, hfields⟩ => ?_
  have hprints := Prints.separated (G := Field.ListEnd) (fun f hf => Field.prints (hfields f hf)) (fun _ => rfl)
    (fun rest => Field.End.of_atNext ⟨',', rest, rfl, .inl rfl⟩) (fun rest hrest => hrest) hne
  obtain ⟨f, fields, rfl⟩ := List.exists_cons_of_ne_nil hne
  obtain ⟨hf, -⟩ := List.forall_mem_cons.1 hfields
  obtain ⟨hfne, hblank⟩ := Field.text_start hf
  have hspace : someBlanks.Again (Lacks Text.isBlank) [' '] () := again_someBlanks rfl (by decide)
  refine hspace.prints_seq hprints fun rest _ => ?_
  rw [List.map_cons, Text.join_cons, List.append_assoc]
  exact hblank.append hfne _

end SeriesCache
