import SeriesCache.Proofs.Payload.RoundTrip
/-!
# Where a key ends, in bytes and in characters

A key is followed by a blank, and its end is looked for in bytes, before anything is known to be a text.  A scan of
bytes knows one thing of what it has passed: whether the last byte was a backslash that escapes the next one.  A scan
of characters knows the same of the last character, so behind a backslash the two differ inside a character of several
bytes.  Both stop at the same place all the same (`Payload.key_ends_agree`), because no byte of such a character is a
blank or a backslash.  The readers of keys cut where these scans stop (`Payload.keyEnd?_eq`, `Escaped.place?_eq`).
-/
namespace SeriesCache

/-! ## Characters -/

namespace Escaped

/-- The places of the characters of a class that are not escaped, each by the number of bytes in front, when so many
stand in front of the text.  The flag tells whether the first character is escaped. -/
def placesFrom (p : Char → Bool) : Bool → Nat → Text → List Nat
  | _, _, [] => []
  | true, n, c :: s => placesFrom p false (n + c.utf8Size) s
  | false, n, c :: s =>
    if c = '\\' then placesFrom p true (n + c.utf8Size) s
    else if p c then n :: placesFrom p false (n + c.utf8Size) s
    else placesFrom p false (n + c.utf8Size) s

/-- The place of the first character of a class that is not escaped. -/
def place? (p : Char → Bool) (s : Text) : Option Nat := (placesFrom p false 0 s).head?

theorem placesFrom_escape (p : Char → Bool) (n : Nat) (c : Char) (s : Text) :
    placesFrom p false n ('\\' :: c :: s) = placesFrom p false (n + 1 + c.utf8Size) s := by
  simp only [placesFrom, if_true]
  rfl

theorem placesFrom_of_ne (p : Char → Bool) (n : Nat) {c : Char} (h : c ≠ '\\') (s : Text) :
    placesFrom p false n (c :: s) =
      if p c then n :: placesFrom p false (n + c.utf8Size) s else placesFrom p false (n + c.utf8Size) s := by
  simp only [placesFrom, h, if_false]

/-- **A cut is made at the first of the places.** -/
theorem head?_placesFrom (p : Char → Bool) : ∀ (n : Nat) (s : Text),
    (placesFrom p false n s).head? = (cut? p s).map fun cut => n + Utf8.size cut.1
  | _, [] => rfl
  | n, c :: s => by
    by_cases hc : c = '\\'
    · subst hc
      cases s with
      | nil => rfl
      | cons c s =>
        rw [placesFrom_escape, head?_placesFrom p _ s, cut?, Option.map_map]
        refine Option.map_congr fun cut _ => ?_
        have hslash : '\\'.utf8Size = 1 := rfl
        simp only [Function.comp_apply, Utf8.size, hslash]
        omega
    · rw [placesFrom_of_ne p n hc, cut?_cons_of_ne p hc]
      split
      · rfl
      · rw [head?_placesFrom p _ s, Option.map_map]
        refine Option.map_congr fun cut _ => ?_
        simp only [Function.comp_apply, Utf8.size]
        omega

theorem place?_eq (p : Char → Bool) (s : Text) : place? p s = (cut? p s).map fun cut => Utf8.size cut.1 := by
  rw [place?, head?_placesFrom]
  simp only [Nat.zero_add]

end Escaped

open Escaped (cut? cut?_cons_of_ne)

namespace Payload

/-! ## Bytes -/

/-- As `Escaped.placesFrom`, in bytes and for a blank: the first place where one stands that is not escaped. -/
def blankFrom? : Bool → Nat → Bytes → Option Nat
  | _, _, [] => none
  | true, n, _ :: bytes => blankFrom? false (n + 1) bytes
  | false, n, b :: bytes =>
    if b = 92 then blankFrom? true (n + 1) bytes
    else if b = 32 then some n
    else blankFrom? false (n + 1) bytes

/-- The number of bytes in front of the first blank that is not escaped. -/
def keyEnd? (bytes : Bytes) : Option Nat := blankFrom? false 0 bytes

theorem blankFrom?_eq : ∀ (n : Nat) (bytes : Bytes),
    blankFrom? false n bytes = (cutKey? bytes).map fun cut => n + cut.1.length
  | _, [] => rfl
  | n, a :: bytes => by
    by_cases h92 : a = 92
    · subst h92
      cases bytes with
      | nil => rfl
      | cons b bytes =>
        have hskip : blankFrom? false n (92 :: b :: bytes) = blankFrom? false (n + 1 + 1) bytes := rfl
        rw [hskip, blankFrom?_eq _ bytes, cutKey?_escape, Option.map_map]
        refine Option.map_congr fun cut _ => ?_
        simp only [Function.comp_apply, List.length_cons]
        omega
    · simp only [blankFrom?, h92, if_false]
      by_cases h32 : a = 32
      · rw [if_pos h32, h32, cutKey?_blank]
        rfl
      · rw [if_neg h32, blankFrom?_eq _ bytes, cutKey?_plain h32 h92, Option.map_map]
        refine Option.map_congr fun cut _ => ?_
        simp only [Function.comp_apply, List.length_cons]
        omega

/-- **A key is cut off at its end.** -/
theorem keyEnd?_eq (bytes : Bytes) : keyEnd? bytes = (cutKey? bytes).map fun cut => cut.1.length := by
  rw [keyEnd?, blankFrom?_eq]
  simp only [Nat.zero_add]

/-! ## Texts in bytes -/

/-- **A cut of the bytes of a text** leaves the bytes of the parts that a cut of the text leaves. -/
theorem cutKey?_encode_text : ∀ s : Text, cutKey? (Utf8.encode s) =
    (cut? (· == ' ') s).map fun cut => (Utf8.encode cut.1, (Utf8.encode cut.2).drop 1)
  | [] => rfl
  | c :: s => by
    by_cases hc : c = '\\'
    · subst hc
      cases s with
      | nil => rfl
      | cons c s =>
        have hbytes (t : Text) : Utf8.encode ('\\' :: c :: t) = Utf8.encode ['\\', c] ++ Utf8.encode t :=
          Utf8.encode_append ['\\', c] t
        rw [hbytes, passed_escaped, cutKey?_encode_text s, cut?, Option.map_map, Option.map_map]
        exact Option.map_congr fun cut _ => Prod.ext (hbytes cut.1).symm rfl
    · rw [cut?_cons_of_ne _ hc]
      by_cases hblank : c = ' '
      · subst hblank
        rw [if_pos BEq.rfl, Utf8.encode_cons]
        exact cutKey?_blank _
      · have hbytes (t : Text) : Utf8.encode (c :: t) = Utf8.encode [c] ++ Utf8.encode t := Utf8.encode_append [c] t
        rw [if_neg (by simpa using hblank), hbytes, passed_plain hblank hc, cutKey?_encode_text s,
          Option.map_map, Option.map_map]
        exact Option.map_congr fun cut _ => Prod.ext (hbytes cut.1).symm rfl

/-- **A reader of bytes and a reader of characters find the same end.**  In the bytes of a text the first blank that is
not escaped stands behind as many bytes as in the text, or in neither.  So whatever bytes stand behind the text of a
key and a blank, the end of the key is that of its text. -/
theorem key_ends_agree (s : Text) (key : Key) (rest : Bytes) :
    keyEnd? (Utf8.encode s) = Escaped.place? (· == ' ') s ∧
    keyEnd? (Utf8.encode key.text ++ 32 :: rest) = some (Utf8.encode key.text).length := by
  constructor
  · rw [keyEnd?_eq, Escaped.place?_eq, cutKey?_encode_text, Option.map_map]
    refine Option.map_congr fun cut _ => ?_
    rw [Function.comp_apply, Utf8.length_encode]
  · rw [keyEnd?_eq, cutKey?_encode key.without_text]
    rfl

end Payload
end SeriesCache
