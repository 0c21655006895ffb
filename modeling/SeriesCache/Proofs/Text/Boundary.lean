import SeriesCache.Payload.Buffer
import SeriesCache.Proofs.Payload.Bytes
/-!
# Texts cut in bytes

Only the first byte of a character can stand behind a place between two characters, so going down from the limit to
such a place keeps the characters that fit as a whole (`Utf8.cut_encode`).
-/
namespace SeriesCache.Utf8

/-- The first byte of a character is told from the others. -/
theorem encodeChar_eq_cons (c : Char) : ∃ b bs, encodeChar c = b :: bs ∧ isContinuation b = false ∧
    ∀ x ∈ bs, isContinuation x = true := by
  have hc := toNat_lt c
  have hfirst {n : Nat} (h : n < 0x80 ∨ 0xC0 ≤ n ∧ n < 0x100) : isContinuation n.toUInt8 = false := by
    simp only [isContinuation, toNat_toUInt8 (by omega : n < 256), Bool.and_eq_false_iff, decide_eq_false_iff_not]
    omega
  have hother (n : Nat) : isContinuation (0x80 + n % 64).toUInt8 = true := by
    simp only [isContinuation, toNat_toUInt8 (by omega : 0x80 + n % 64 < 256), Bool.and_eq_true, decide_eq_true_eq]
    omega
  unfold encodeChar
  simp only
  split
  · exact ⟨_, _, rfl, hfirst (by omega), List.forall_mem_nil _⟩
  split
  · exact ⟨_, _, rfl, hfirst (by omega), List.forall_mem_singleton.2 (hother _)⟩
  have hpair (m n : Nat) : ∀ x ∈ [(0x80 + m % 64).toUInt8, (0x80 + n % 64).toUInt8], isContinuation x = true :=
    List.forall_mem_cons.2 ⟨hother m, List.forall_mem_singleton.2 (hother n)⟩
  split
  · exact ⟨_, _, rfl, hfirst (by omega), hpair _ _⟩
  · exact ⟨_, _, rfl, hfirst (by omega), List.forall_mem_cons.2 ⟨hother _, hpair _ _⟩⟩

/-- No place inside a character is between two. -/
theorem isBoundary_inside {c : Char} {place : Nat} (hpos : 0 < place) (h : place < (encodeChar c).length)
    (rest : Bytes) : isBoundary (encodeChar c ++ rest) place = false := by
  obtain ⟨b, bs, hb, -, hbs⟩ := encodeChar_eq_cons c
  obtain ⟨i, rfl⟩ := Nat.exists_eq_succ_of_ne_zero (Nat.ne_of_gt hpos)
  rw [hb] at h ⊢
  have hi : i < bs.length := Nat.lt_of_succ_lt_succ h
  have hbyte : (b :: bs ++ rest)[i + 1]? = some bs[i] := by
    rw [List.cons_append, List.getElem?_cons_succ, List.getElem?_append_left hi, List.getElem?_eq_getElem hi]
  unfold isBoundary
  rw [hbyte]
  simp [hbs bs[i] (List.getElem_mem hi)]

/-- Behind a character the places are those of the text that follows. -/
theorem isBoundary_behind (c : Char) (s : Text) (place : Nat) :
    isBoundary (encodeChar c ++ encode s) ((encodeChar c).length + place) = isBoundary (encode s) place := by
  have hlen := List.length_pos_iff.2 (encodeChar_ne_nil c)
  have hne : ((encodeChar c).length + place == 0) = false := beq_false_of_ne (by omega)
  unfold isBoundary
  rw [List.getElem?_append_right (Nat.le_add_right _ _), Nat.add_sub_cancel_left, List.length_append, hne,
    Bool.false_or]
  cases place with
  | zero =>
    -- The place right behind the character: a character starts there, or the text ends.
    cases s with
    | nil => simp [encode]
    | cons d s =>
      obtain ⟨b, bs, hb, hfirst, -⟩ := encodeChar_eq_cons d
      rw [encode_cons, hb]
      simp [hfirst]
  | succ place =>
    cases (encode s)[place + 1]? with
    | none =>
      rw [Bool.eq_iff_iff]
      simp only [Bool.or_eq_true, beq_iff_eq]
      omega
    | some b => rfl

/-! ## Going down from the limit -/

theorem boundaryUpTo_inside {c : Char} : ∀ {place : Nat}, place < (encodeChar c).length → ∀ rest : Bytes,
    boundaryUpTo (encodeChar c ++ rest) place = 0
  | 0, _, _ => rfl
  | place + 1, h, rest => by
    rw [boundaryUpTo, isBoundary_inside (Nat.succ_pos place) h, if_neg Bool.false_ne_true,
      boundaryUpTo_inside (Nat.lt_of_succ_lt h)]

theorem boundaryUpTo_behind (c : Char) (s : Text) : ∀ place : Nat,
    boundaryUpTo (encodeChar c ++ encode s) ((encodeChar c).length + place) =
      (encodeChar c).length + boundaryUpTo (encode s) place
  | 0 => by
    have hplace := isBoundary_behind c s 0
    obtain ⟨n, hn⟩ := Nat.exists_eq_succ_of_ne_zero (Nat.ne_of_gt (List.length_pos_iff.2 (encodeChar_ne_nil c)))
    rw [hn] at hplace ⊢
    exact if_pos hplace
  | place + 1 => by
    rw [← Nat.add_assoc, boundaryUpTo, boundaryUpTo, Nat.add_assoc, isBoundary_behind, boundaryUpTo_behind c s place]
    split <;> rfl

theorem take_boundaryUpTo : ∀ (limit : Nat) (s : Text),
    (encode s).take (boundaryUpTo (encode s) limit) = encode (Text.within limit s)
  | limit, [] => List.take_nil
  | limit, c :: s => by
    rw [encode_cons, Text.within]
    by_cases hc : c.utf8Size ≤ limit
    · rw [if_pos hc, encode_cons, ← take_boundaryUpTo _ s]
      obtain ⟨more, rfl⟩ := Nat.exists_eq_add_of_le hc
      rw [← length_encodeChar, boundaryUpTo_behind, Nat.add_sub_cancel_left, List.take_length_add_append]
    · have hinside : limit < (encodeChar c).length := by
        rw [length_encodeChar]
        exact Nat.lt_of_not_le hc
      rw [if_neg hc, boundaryUpTo_inside hinside, List.take_zero]
      rfl

/-- **Cutting the bytes of a text** is cutting the text: what is left are the characters that fit as a whole. -/
theorem cut_encode (limit : Nat) (s : Text) : cut limit (encode s) = encode (Text.within limit s) := by
  unfold cut
  split
  · rename_i hfits
    rw [length_encode] at hfits
    rw [Text.within_of_size_le hfits]
  · exact take_boundaryUpTo limit s

end SeriesCache.Utf8
