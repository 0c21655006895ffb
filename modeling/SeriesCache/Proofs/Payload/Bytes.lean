import SeriesCache.Payload.Bytes
import SeriesCache.Proofs.Text.Utf8
/-!
# Numbers and cut texts as bytes, and back

A number that fits its bytes reads back (`ofBigEndian_bigEndian`), and so do bytes from the number that they
spell (`bigEndian_ofBigEndian`).  `Text.within` keeps the longest start of a text that fits
(`within_eq_fitting`), and dropping the zero bytes after the bytes of a text is dropping the NUL characters at
its end (`dropZeros_encode_append`).
-/
namespace SeriesCache

/-! ## Numbers -/

theorem ofBigEndian_concat (bytes : Bytes) (b : UInt8) :
    ofBigEndian (bytes ++ [b]) = ofBigEndian bytes * 256 + b.toNat := by
  rw [ofBigEndian, List.foldl_append]
  rfl

/-- **A number that fits its bytes reads back.** -/
theorem ofBigEndian_bigEndian : ∀ {width n : Nat}, n < Nat.pow 256 width →
    ofBigEndian (bigEndian width n) = n
  | 0, n, h => (Nat.lt_one_iff.1 h).symm
  | width + 1, n, h => by
    have hdiv : n / 256 < Nat.pow 256 width := Nat.div_lt_of_lt_mul (by rw [Nat.mul_comm]; exact h)
    rw [bigEndian, ofBigEndian_concat, ofBigEndian_bigEndian hdiv, UInt8.toNat_ofNat']
    omega

theorem ofBigEndian_lt : ∀ {width : Nat} {bytes : Bytes}, bytes.length = width →
    ofBigEndian bytes < Nat.pow 256 width
  | 0, bytes, h => by
    rw [List.eq_nil_of_length_eq_zero h]
    exact Nat.one_pos
  | width + 1, bytes, h => by
    have hne : bytes ≠ [] := List.ne_nil_of_length_eq_add_one h
    have hfront : bytes.dropLast.length = width := by rw [List.length_dropLast, h, Nat.add_sub_cancel]
    have hlt := ofBigEndian_lt hfront
    have hlast := (bytes.getLast hne).toNat_lt
    rw [← List.dropLast_concat_getLast hne, ofBigEndian_concat]
    change ofBigEndian bytes.dropLast * 256 + (bytes.getLast hne).toNat < Nat.pow 256 width * 256
    omega

/-- **Bytes are those of the number that they spell.** -/
theorem bigEndian_ofBigEndian : ∀ {width : Nat} {bytes : Bytes}, bytes.length = width →
    bigEndian width (ofBigEndian bytes) = bytes
  | 0, bytes, h => (List.eq_nil_of_length_eq_zero h).symm
  | width + 1, bytes, h => by
    have hne : bytes ≠ [] := List.ne_nil_of_length_eq_add_one h
    have hfront : bytes.dropLast.length = width := by rw [List.length_dropLast, h, Nat.add_sub_cancel]
    have hlast := (bytes.getLast hne).toNat_lt
    have hnumber : ofBigEndian bytes = ofBigEndian bytes.dropLast * 256 + (bytes.getLast hne).toNat := by
      rw [← ofBigEndian_concat, List.dropLast_concat_getLast]
    have hdiv : ofBigEndian bytes / 256 = ofBigEndian bytes.dropLast := by omega
    have hmod : ofBigEndian bytes % 256 = (bytes.getLast hne).toNat := by omega
    rw [bigEndian, hdiv, hmod, bigEndian_ofBigEndian hfront, UInt8.ofNat_toNat, List.dropLast_concat_getLast]

theorem splitBytes?_of_length {n : Nat} {front : Bytes} (h : front.length = n) (rest : Bytes) :
    splitBytes? n (front ++ rest) = some (front, rest) := by
  rw [← h, splitBytes?_append]

/-- Bytes are split in no other way than into a front of the length asked for and the rest. -/
theorem eq_of_splitBytes? : ∀ {n : Nat} {bytes front rest : Bytes}, splitBytes? n bytes = some (front, rest) →
    bytes = front ++ rest ∧ front.length = n
  | 0, _, _, _, h => by
    cases h
    exact ⟨rfl, rfl⟩
  | n + 1, b :: bytes, _, _, h => by
    obtain ⟨⟨front, rest⟩, hsplit, h⟩ := Option.map_eq_some_iff.1 h
    cases h
    obtain ⟨rfl, rfl⟩ := eq_of_splitBytes? hsplit
    exact ⟨rfl, rfl⟩

@[simp] theorem dropBytes?_append (front rest : Bytes) :
    dropBytes? front (front ++ rest) = some rest := by
  induction front with
  | nil => rfl
  | cons b front ih => rw [List.cons_append, dropBytes?, if_pos rfl, ih]

theorem eq_of_dropBytes? : ∀ {front bytes rest : Bytes}, dropBytes? front bytes = some rest → bytes = front ++ rest
  | [], _, _, h => Option.some.inj h
  | a :: front, b :: bytes, rest, h => by
    rw [dropBytes?] at h
    split at h
    · rename_i hb
      rw [hb, eq_of_dropBytes? h]
      rfl
    · cases h

/-! ## The longest start that fits -/

namespace Text

/-- The longest of the starts of a text, of so many characters at most, that takes no more bytes than the
limit: the longer ones are tried first. -/
def fittingStart (limit : Nat) (s : Text) : Nat → Text
  | 0 => []
  | n + 1 => if Utf8.size (s.take (n + 1)) ≤ limit then s.take (n + 1) else fittingStart limit s n

/-- The longest start of a text that takes no more bytes than the limit. -/
def fitting (limit : Nat) (s : Text) : Text := fittingStart limit s s.length

/-- Where a text is cut: what is kept fits, and no longer start does. -/
theorem within_eq_take : ∀ (limit : Nat) (s : Text), ∃ k ≤ s.length, within limit s = s.take k ∧
    Utf8.size (s.take k) ≤ limit ∧ ∀ m, k < m → m ≤ s.length → limit < Utf8.size (s.take m)
  | limit, [] => ⟨0, Nat.le_refl 0, rfl, Nat.zero_le limit, fun m h hm => absurd h (Nat.not_lt.2 hm)⟩
  | limit, c :: s => by
    by_cases hc : c.utf8Size ≤ limit
    · obtain ⟨k, hk, heq, hfit, hmax⟩ := within_eq_take (limit - c.utf8Size) s
      refine ⟨k + 1, Nat.succ_le_succ hk, by rw [within, if_pos hc, heq, List.take_succ_cons], ?_, ?_⟩
      · rw [List.take_succ_cons, Utf8.size]
        omega
      · rintro (_ | m) hm hlen
        · omega
        · have := hmax m (Nat.lt_of_succ_lt_succ hm) (Nat.le_of_succ_le_succ hlen)
          rw [List.take_succ_cons, Utf8.size]
          omega
    · refine ⟨0, Nat.zero_le _, by rw [within, if_neg hc, List.take_zero], Nat.zero_le limit, ?_⟩
      rintro (_ | m) hm hlen
      · omega
      · rw [List.take_succ_cons, Utf8.size]
        omega

theorem size_within_le (limit : Nat) (s : Text) : Utf8.size (within limit s) ≤ limit := by
  obtain ⟨k, -, heq, hfit, -⟩ := within_eq_take limit s
  rw [heq]
  exact hfit

/-- **What is kept of a text is its longest start that fits.** -/
theorem within_eq_fitting (limit : Nat) (s : Text) : within limit s = fitting limit s := by
  obtain ⟨k, hk, heq, hfit, hmax⟩ := within_eq_take limit s
  have hstart : ∀ n, k ≤ n → n ≤ s.length → fittingStart limit s n = s.take k := by
    intro n hkn hn
    induction n with
    | zero => rw [Nat.le_zero.1 hkn, List.take_zero, fittingStart]
    | succ n ih =>
      rw [fittingStart]
      by_cases hlast : k = n + 1
      · rw [if_pos (hlast ▸ hfit), hlast]
      · have hlong := hmax (n + 1) (by omega) hn
        rw [if_neg (Nat.not_le.2 hlong), ih (by omega) (by omega)]
  rw [heq, fitting, hstart s.length hk (Nat.le_refl _)]

theorem fitting_of_size_le {limit : Nat} {s : Text} (h : Utf8.size s ≤ limit) : fitting limit s = s := by
  rw [fitting]
  cases s with
  | nil => rfl
  | cons c s =>
    have hwhole : (c :: s).take (s.length + 1) = c :: s := List.take_of_length_le (Nat.le_refl _)
    rw [List.length_cons, fittingStart, hwhole, if_pos h]

/-- A text that fits is kept whole. -/
theorem within_of_size_le {limit : Nat} {s : Text} (h : Utf8.size s ≤ limit) : within limit s = s := by
  rw [within_eq_fitting, fitting_of_size_le h]

/-- The text without the NUL characters at its end. -/
def dropNuls (s : Text) : Text := (s.reverse.dropWhile (· == '\x00')).reverse

theorem dropNuls_of_getLast?_ne {s : Text} (h : s.getLast? ≠ some '\x00') : dropNuls s = s := by
  rw [← List.head?_reverse] at h
  rw [dropNuls]
  cases hs : s.reverse with
  | nil => rw [List.dropWhile_nil, ← hs, List.reverse_reverse]
  | cons c t =>
    rw [hs, List.head?_cons] at h
    have hc : (c == '\x00') = false := beq_false_of_ne fun heq => h (congrArg some heq)
    rw [List.dropWhile_cons, hc, if_neg Bool.false_ne_true, ← hs, List.reverse_reverse]

end Text

/-! ## Zeros at the end -/

theorem dropZeros_concat_zero (bytes : Bytes) : dropZeros (bytes ++ [0]) = dropZeros bytes := by
  rw [dropZeros, List.reverse_concat, List.dropWhile_cons_of_pos rfl, dropZeros]

theorem dropZeros_concat {b : UInt8} (h : b ≠ 0) (bytes : Bytes) :
    dropZeros (bytes ++ [b]) = bytes ++ [b] := by
  rw [dropZeros, List.reverse_concat, List.dropWhile_cons_of_neg (by simpa using h),
    ← List.reverse_concat, List.reverse_reverse]

theorem dropZeros_append_zeros (bytes : Bytes) (n : Nat) :
    dropZeros (bytes ++ List.replicate n 0) = dropZeros bytes := by
  induction n with
  | zero => rw [List.replicate_zero, List.append_nil]
  | succ n ih => rw [List.replicate_succ', ← List.append_assoc, dropZeros_concat_zero, ih]

/-- Only the NUL character has a zero for its last byte. -/
theorem encodeChar_eq_concat {c : Char} (h : c ≠ '\x00') :
    ∃ bytes b, Utf8.encodeChar c = bytes ++ [b] ∧ b ≠ 0 := by
  have hne := Utf8.encodeChar_ne_nil c
  refine ⟨_, _, (List.dropLast_concat_getLast hne).symm, fun hz => ?_⟩
  have hmem := Utf8.toNat_of_mem_encodeChar (List.getLast_mem hne)
  rw [hz, UInt8.toNat_zero] at hmem
  rcases hmem with ⟨hc, -⟩ | ⟨hb, -⟩
  · exact h (Char.toNat_inj.1 hc.symm)
  · omega

theorem dropZeros_encode_reverse : ∀ s : Text,
    dropZeros (Utf8.encode s.reverse) = Utf8.encode (s.dropWhile (· == '\x00')).reverse
  | [] => rfl
  | c :: s => by
    rw [List.reverse_cons, Utf8.encode_append]
    by_cases hc : c = '\x00'
    · rw [hc, List.dropWhile_cons_of_pos rfl, ← dropZeros_encode_reverse s]
      exact dropZeros_concat_zero _
    · obtain ⟨bytes, b, hb, hne⟩ := encodeChar_eq_concat hc
      rw [List.dropWhile_cons_of_neg (by simpa using hc), List.reverse_cons, Utf8.encode_append,
        Utf8.encode_cons, hb]
      rw [show Utf8.encode [] = [] from rfl, List.append_nil, ← List.append_assoc,
        dropZeros_concat hne]

/-- **Dropping the zeros behind a text's bytes** is dropping the NULs at its end. -/
theorem dropZeros_encode_append (s : Text) (n : Nat) :
    dropZeros (Utf8.encode s ++ List.replicate n 0) = Utf8.encode s.dropNuls := by
  have h := dropZeros_encode_reverse s.reverse
  rw [List.reverse_reverse] at h
  rw [dropZeros_append_zeros, h, Text.dropNuls]

/-- Only zeros are dropped. -/
theorem dropZeros_append_replicate (bytes : Bytes) :
    dropZeros bytes ++ List.replicate (bytes.length - (dropZeros bytes).length) 0 = bytes := by
  have hzeros : ∀ l : Bytes, l = List.replicate (l.length - (l.dropWhile (· == 0)).length) 0 ++ l.dropWhile (· == 0) := by
    intro l
    induction l with
    | nil => rfl
    | cons b l ih =>
      by_cases hb : b = 0
      · have hle := (List.dropWhile_suffix (· == (0 : UInt8)) (l := l)).length_le
        rw [List.dropWhile_cons_of_pos (by simpa using hb), List.length_cons, Nat.succ_sub hle, List.replicate_succ,
          List.cons_append, ← ih, hb]
      · rw [List.dropWhile_cons_of_neg (by simpa using hb), Nat.sub_self]
        rfl
  have h := congrArg List.reverse (hzeros bytes.reverse)
  rw [List.reverse_reverse, List.reverse_append, List.reverse_replicate, List.length_reverse] at h
  rw [dropZeros, List.length_reverse]
  exact h.symm

theorem getLast?_dropZeros_ne (bytes : Bytes) : (dropZeros bytes).getLast? ≠ some 0 := by
  rw [dropZeros, List.getLast?_reverse]
  intro h
  have hhead := List.head?_dropWhile_not (· == (0 : UInt8)) bytes.reverse
  rw [h] at hhead
  cases hhead

/-- The bytes of a text that ends in a NUL end in a zero. -/
theorem getLast?_ne_of_encode {s : Text} (h : (Utf8.encode s).getLast? ≠ some 0) : s.getLast? ≠ some '\x00' := by
  intro hlast
  obtain ⟨front, rfl⟩ := List.getLast?_eq_some_iff.1 hlast
  refine h ?_
  rw [Utf8.encode_append]
  exact List.getLast?_concat

end SeriesCache
