/-!
# Texts

Every text in this library is a list of characters, so that a reader is a function by
recursion on what is left to read and a printer is a chain of appends.  The order of two
texts is the order of their code points, which is also the order of their UTF-8 bytes.

Query text knows ASCII letters and digits only.  Two kinds of blank occur: the four blanks
between the words of a query (`isBlank`), and the Unicode blanks that are trimmed off both
ends of a timestamp or an operand (`isWhite`).
-/
namespace SeriesCache

abbrev Text := List Char

namespace Text

/-! ## Classes of characters -/

/-- Space, tab, carriage return and line feed separate the words of a query. -/
def isBlank (c : Char) : Bool := c == ' ' || c == '\t' || c == '\r' || c == '\n'

/-- A word starts with an ASCII letter or an underscore. -/
def isWordStart (c : Char) : Bool := c.isAlpha || c == '_'

/-- A word goes on with ASCII letters, digits and underscores. -/
def isWordPart (c : Char) : Bool := c.isAlphanum || c == '_'

/-- Whether the code point of a character is in one of some closed ranges. -/
def isAmong (ranges : List (Nat × Nat)) (c : Char) : Bool :=
  ranges.any fun r => r.1 ≤ c.toNat && c.toNat ≤ r.2

/-- The code points with the Unicode property White_Space, as closed ranges. -/
def whiteRanges : List (Nat × Nat) :=
  [(0x09, 0x0D), (0x20, 0x20), (0x85, 0x85), (0xA0, 0xA0), (0x1680, 0x1680), (0x2000, 0x200A),
   (0x2028, 0x2029), (0x202F, 0x202F), (0x205F, 0x205F), (0x3000, 0x3000)]

def isWhite (c : Char) : Bool := isAmong whiteRanges c

/-! ## Cutting and comparing -/

def dropBlanks (s : Text) : Text := s.dropWhile isBlank

def trimStart (s : Text) : Text := s.dropWhile isWhite

def trimEnd (s : Text) : Text := (s.reverse.dropWhile isWhite).reverse

def trim (s : Text) : Text := trimEnd (trimStart s)

/-- What follows `start` at the front of a text, if it stands there. -/
def dropPrefix? : Text → Text → Option Text
  | [], s => some s
  | _ :: _, [] => none
  | p :: ps, c :: cs => if p = c then dropPrefix? ps cs else none

/-- As `dropPrefix?`, where an ASCII letter matches itself in either case. -/
def dropPrefixAnyCase? : Text → Text → Option Text
  | [], s => some s
  | _ :: _, [] => none
  | p :: ps, c :: cs => if p.toLower = c.toLower then dropPrefixAnyCase? ps cs else none

def lower (s : Text) : Text := s.map Char.toLower

/-- Equality up to the case of ASCII letters. -/
def sameWord (s t : Text) : Bool := lower s == lower t

/-- The texts in turn, with `sep` between any two of them. -/
def join (sep : Text) : List Text → Text
  | [] => []
  | [s] => s
  | s :: t :: ts => s ++ sep ++ join sep (t :: ts)

/-- Whether the text starts with a character of the class. -/
def startsWith (p : Char → Bool) : Text → Bool
  | [] => false
  | c :: _ => p c

/-! ## Laws -/

@[simp] theorem dropPrefix?_append (p s : Text) : dropPrefix? p (p ++ s) = some s := by
  induction p with
  | nil => rfl
  | cons c p ih => simpa [dropPrefix?] using ih

theorem dropPrefix?_eq_some_iff {p s r : Text} : dropPrefix? p s = some r ↔ s = p ++ r := by
  fun_induction dropPrefix? p s with
  | case1 s => simp [eq_comm]
  | case2 => simp
  | case3 p ps cs ih => simp [ih]
  | case4 p ps c cs h => simp [Ne.symm h]

theorem dropPrefixAnyCase?_eq_some_iff {v s r : Text} :
    dropPrefixAnyCase? v s = some r ↔ ∃ w, s = w ++ r ∧ lower w = lower v := by
  fun_induction dropPrefixAnyCase? v s with
  | case1 s =>
    constructor
    · rintro ⟨⟩
      exact ⟨[], rfl, rfl⟩
    · rintro ⟨w, rfl, hw⟩
      rw [List.map_eq_nil_iff.1 hw]
      rfl
  | case2 p ps =>
    constructor
    · rintro ⟨⟩
    · rintro ⟨w, hs, hw⟩
      rw [(List.append_eq_nil_iff.1 hs.symm).1] at hw
      cases hw
  | case3 p ps c cs hc ih =>
    rw [ih]
    constructor
    · rintro ⟨w, rfl, hw⟩
      refine ⟨c :: w, rfl, ?_⟩
      rw [lower, List.map_cons, ← hc]
      exact congrArg _ hw
    · rintro ⟨w, hs, hw⟩
      cases w with
      | nil => cases hw
      | cons d w => exact ⟨w, (List.cons.inj hs).2, (List.cons.inj hw).2⟩
  | case4 p ps c cs hc =>
    constructor
    · rintro ⟨⟩
    · rintro ⟨w, hs, hw⟩
      cases w with
      | nil => cases hw
      | cons d w => exact absurd ((congrArg Char.toLower (List.cons.inj hs).1).trans (List.cons.inj hw).1).symm hc

/-- A text without some character is told by what it starts up to that character, and so is what stands behind. -/
theorem append_cons_inj {c : Char} : ∀ {s s' t t' : Text}, c ∉ s → c ∉ s' → s ++ c :: t = s' ++ c :: t' →
    s = s' ∧ t = t'
  | [], [], _, _, _, _, h => ⟨rfl, (List.cons.inj h).2⟩
  | [], d :: s', _, _, _, hs', h => absurd ((List.cons.inj h).1 ▸ List.mem_cons_self) hs'
  | d :: s, [], _, _, hs, _, h => absurd ((List.cons.inj h).1 ▸ List.mem_cons_self) hs
  | d :: s, d' :: s', _, _, hs, hs', h => by
    obtain ⟨hd, h⟩ := List.cons.inj h
    obtain ⟨hsame, ht⟩ := append_cons_inj (fun hmem => hs (List.mem_cons_of_mem d hmem))
      (fun hmem => hs' (List.mem_cons_of_mem d' hmem)) h
    rw [hd, hsame]
    exact ⟨rfl, ht⟩

section

variable {α : Type} {text : α → Text} {as : List α}

theorem length_le_flatMap (h : ∀ a ∈ as, text a ≠ []) : as.length ≤ (as.flatMap text).length := by
  induction as with
  | nil => exact Nat.le_refl 0
  | cons a as ih =>
    obtain ⟨ha, has⟩ := List.forall_mem_cons.1 h
    have hlength := List.length_pos_iff.2 ha
    have htail := ih has
    rw [List.flatMap_cons, List.length_append, List.length_cons]
    omega

theorem length_le_flatMap_of_mem {a : α} (h : a ∈ as) : (text a).length ≤ (as.flatMap text).length := by
  obtain ⟨before, after, rfl⟩ := List.append_of_mem h
  rw [List.flatMap_append, List.flatMap_cons, List.length_append, List.length_append]
  omega

end

/-! ## Laws of joining -/

/-- The texts with `sep` in front of each. -/
def behind (sep : Text) (ts : List Text) : Text := ts.flatMap (sep ++ ·)

theorem behind_cons (sep t : Text) (ts : List Text) : behind sep (t :: ts) = sep ++ (t ++ behind sep ts) :=
  List.append_assoc sep t (behind sep ts)

theorem length_le_behind {sep : Text} (h : sep ≠ []) (ts : List Text) : ts.length ≤ (behind sep ts).length :=
  length_le_flatMap fun t _ => List.append_ne_nil_of_left_ne_nil h t

/-- What holds of a text, and of all that starts with the separator, holds of the text behind any others. -/
theorem behind_append {P : Text → Prop} {sep rest : Text} (hsep : ∀ t, P (sep ++ t)) (hrest : P rest) (ts : List Text) :
    P (behind sep ts ++ rest) := by
  cases ts with
  | nil => exact hrest
  | cons t ts =>
    rw [behind_cons, List.append_assoc]
    exact hsep _

/-- **Joined texts** are the first of them with the others behind it. -/
theorem join_cons (sep s : Text) (ts : List Text) : join sep (s :: ts) = s ++ behind sep ts := by
  induction ts generalizing s with
  | nil => exact (List.append_nil s).symm
  | cons t ts ih => rw [join, ih, behind_cons, List.append_assoc]

theorem join_nil (ts : List Text) : join [] ts = ts.flatten := by
  cases ts with
  | nil => rfl
  | cons s ts =>
    simp [join_cons, behind, List.flatMap_def]

theorem mem_join {sep s : Text} {c : Char} {ts : List Text} (hc : c ∈ s) (hs : s ∈ ts) : c ∈ join sep ts := by
  cases ts with
  | nil => cases hs
  | cons t ts =>
    rw [join_cons, List.mem_append]
    rcases List.mem_cons.1 hs with rfl | hs
    · exact .inl hc
    · exact .inr (List.mem_flatMap.2 ⟨s, hs, List.mem_append_right sep hc⟩)

end Text
end SeriesCache
