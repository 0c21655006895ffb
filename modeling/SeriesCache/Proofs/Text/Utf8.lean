import SeriesCache.Text.Utf8
/-!
# Texts as bytes, and back

A text reads back from its bytes (`decode_encode`), and no other bytes are read as it (`encode_of_decode`).
Every byte of a character beyond ASCII has its high bit set (`toNat_of_mem_encodeChar`), so an ASCII byte in
the bytes of a text is a character of its own.
-/
namespace SeriesCache.Utf8

/-! ## Characters -/

theorem toNat_lt (c : Char) : c.toNat < 0x110000 ∧ (c.toNat < 0xD800 ∨ 0xDFFF < c.toNat) := by
  have h : Nat.isValidChar c.toNat := c.valid
  unfold Nat.isValidChar at h
  omega

theorem toNat_toUInt8 {n : Nat} (h : n < 256) : n.toUInt8.toNat = n := by
  rw [Nat.toUInt8_eq, UInt8.toNat_ofNat']
  omega

theorem utf8Size_eq (c : Char) : c.utf8Size =
    if c.toNat < 0x80 then 1 else if c.toNat < 0x800 then 2 else if c.toNat < 0x10000 then 3 else 4 := by
  have hle (n : UInt32) : c.val ≤ n ↔ c.toNat < n.toNat + 1 := by
    rw [UInt32.le_iff_toNat_le, Nat.lt_succ_iff]
    rfl
  simp only [Char.utf8Size, hle]
  rfl

theorem length_encodeChar (c : Char) : (encodeChar c).length = c.utf8Size := by
  rw [utf8Size_eq, encodeChar]
  split
  · rfl
  split
  · rfl
  split <;> rfl

theorem encodeChar_ne_nil (c : Char) : encodeChar c ≠ [] := by
  intro h
  have hlen := length_encodeChar c
  rw [h] at hlen
  exact absurd hlen (Nat.ne_of_lt c.utf8Size_pos)

/-- **The bytes of a character** are the character itself in ASCII, and have the high bit beyond. -/
theorem toNat_of_mem_encodeChar {c : Char} {b : UInt8} (h : b ∈ encodeChar c) :
    b.toNat = c.toNat ∧ c.toNat < 0x80 ∨ 0x80 ≤ b.toNat ∧ 0x80 ≤ c.toNat := by
  have hc := toNat_lt c
  rw [encodeChar] at h
  split at h
  · rw [List.mem_singleton.1 h, toNat_toUInt8 (by omega)]
    exact .inl ⟨rfl, ‹_›⟩
  · right
    refine ⟨?_, by omega⟩
    split at h
    · simp only [List.mem_cons, List.not_mem_nil, or_false] at h
      rcases h with rfl | rfl <;> rw [toNat_toUInt8 (by omega)] <;> omega
    split at h
    all_goals
      simp only [List.mem_cons, List.not_mem_nil, or_false] at h
    · rcases h with rfl | rfl | rfl <;> rw [toNat_toUInt8 (by omega)] <;> omega
    · rcases h with rfl | rfl | rfl | rfl <;> rw [toNat_toUInt8 (by omega)] <;> omega

/-! ## Reading a character back -/

theorem tail_cons {bits low high more read : Nat} {b : UInt8} (hb : low ≤ b.toNat ∧ b.toNat ≤ high)
    (rest : Bytes) : tail bits low high (more + 1) read (b :: rest) =
      tail (bits * 64 + (b.toNat - 0x80)) 0x80 0xBF more (read + 1) rest := by
  rw [tail, if_pos hb]

theorem tail_zero (bits low high read : Nat) (rest : Bytes) :
    tail bits low high 0 read rest = .ok (Char.ofNat bits, rest) := by
  rw [tail]

/-- The second byte of a character of three is within the bounds that the first one sets. -/
theorem continuation?_three {n : Nat} (h : 0x800 ≤ n) (hn : n < 0x10000)
    (hs : n < 0xD800 ∨ 0xDFFF < n) : ∃ low high, continuation? (0xE0 + n / 4096) = some (low, high, 2) ∧
      low ≤ 0x80 + n / 64 % 64 ∧ 0x80 + n / 64 % 64 ≤ high := by
  rw [continuation?, if_neg (by omega)]
  split
  · exact ⟨_, _, rfl, by omega, by omega⟩
  split
  · exact ⟨_, _, rfl, by omega, by omega⟩
  · rw [if_pos (by omega)]
    exact ⟨_, _, rfl, by omega, by omega⟩

theorem continuation?_four {n : Nat} (h : 0x10000 ≤ n) (hn : n < 0x110000) :
    ∃ low high, continuation? (0xF0 + n / 262144) = some (low, high, 3) ∧
      low ≤ 0x80 + n / 4096 % 64 ∧ 0x80 + n / 4096 % 64 ≤ high := by
  rw [continuation?, if_neg (by omega), if_neg (by omega), if_neg (by omega), if_neg (by omega)]
  split
  · exact ⟨_, _, rfl, by omega, by omega⟩
  split
  · exact ⟨_, _, rfl, by omega, by omega⟩
  · rw [if_pos (by omega)]
    exact ⟨_, _, rfl, by omega, by omega⟩

/-- **A character reads back from its bytes.** -/
theorem decodeChar_encodeChar (c : Char) (rest : Bytes) :
    ∃ b bs, encodeChar c = b :: bs ∧ decodeChar b (bs ++ rest) = .ok (c, rest) := by
  have hc := toNat_lt c
  have hofNat {n : Nat} (h : n = c.toNat) : Char.ofNat n = c := by rw [h, Char.ofNat_toNat]
  by_cases h1 : c.toNat < 0x80
  · refine ⟨c.toNat.toUInt8, [], by rw [encodeChar, if_pos h1], ?_⟩
    rw [decodeChar, toNat_toUInt8 (by omega), if_pos h1, Char.ofNat_toNat]
    rfl
  have hlast : (0x80 + c.toNat % 64).toUInt8.toNat = 0x80 + c.toNat % 64 := toNat_toUInt8 (by omega)
  have hsecond : (0x80 + c.toNat / 64 % 64).toUInt8.toNat = 0x80 + c.toNat / 64 % 64 :=
    toNat_toUInt8 (by omega)
  have hthird : (0x80 + c.toNat / 4096 % 64).toUInt8.toNat = 0x80 + c.toNat / 4096 % 64 :=
    toNat_toUInt8 (by omega)
  by_cases h2 : c.toNat < 0x800
  · refine ⟨_, _, by rw [encodeChar, if_neg h1, if_pos h2], ?_⟩
    have hcont : continuation? (0xC0 + c.toNat / 64) = some (0x80, 0xBF, 1) := by
      rw [continuation?, if_pos (by omega)]
    rw [decodeChar, toNat_toUInt8 (by omega), if_neg (by omega), hcont]
    simp only [leadBits]
    rw [if_pos (by omega), List.singleton_append, tail_cons (by omega), tail_zero, hlast,
      hofNat (by omega)]
  by_cases h3 : c.toNat < 0x10000
  · refine ⟨_, _, by rw [encodeChar, if_neg h1, if_neg h2, if_pos h3], ?_⟩
    obtain ⟨low, high, hcont, hlow, hhigh⟩ :=
      continuation?_three (Nat.le_of_not_lt h2) h3 hc.2
    rw [decodeChar, toNat_toUInt8 (by omega), if_neg (by omega), hcont]
    simp only [leadBits]
    rw [if_neg (by omega), if_pos (by omega), List.cons_append, List.singleton_append,
      tail_cons (by omega), tail_cons (by omega), tail_zero, hlast, hsecond, hofNat (by omega)]
  · refine ⟨_, _, by rw [encodeChar, if_neg h1, if_neg h2, if_neg h3], ?_⟩
    obtain ⟨low, high, hcont, hlow, hhigh⟩ := continuation?_four (Nat.le_of_not_lt h3) hc.1
    rw [decodeChar, toNat_toUInt8 (by omega), if_neg (by omega), hcont]
    simp only [leadBits]
    rw [if_neg (by omega), if_neg (by omega), List.cons_append, List.cons_append,
      List.singleton_append, tail_cons (by omega), tail_cons (by omega), tail_cons (by omega),
      tail_zero, hlast, hsecond, hthird, hofNat (by omega)]

/-! ## Texts -/

theorem encode_cons (c : Char) (s : Text) : encode (c :: s) = encodeChar c ++ encode s :=
  List.flatMap_cons

theorem encode_append (s t : Text) : encode (s ++ t) = encode s ++ encode t := List.flatMap_append

theorem length_encode (s : Text) : (encode s).length = size s := by
  induction s with
  | nil => rfl
  | cons c s ih => rw [encode_cons, List.length_append, length_encodeChar, ih, size]

theorem length_le_size : ∀ s : Text, s.length ≤ size s
  | [] => Nat.le_refl 0
  | c :: s => by
    have hc := c.utf8Size_pos
    have hs := length_le_size s
    rw [size, List.length_cons]
    omega

theorem decodeWithin_encode : ∀ (s : Text) {n : Nat} (index : Nat), s.length ≤ n →
    decodeWithin n index (encode s) = .ok s
  | [], n, index, _ => by cases n <;> rfl
  | c :: s, n + 1, index, h => by
    obtain ⟨b, bs, hb, hread⟩ := decodeChar_encodeChar c (encode s)
    rw [encode_cons, hb, List.cons_append, decodeWithin, hread]
    simp only
    rw [decodeWithin_encode s _ (Nat.le_of_succ_le_succ h)]
    rfl

/-- **A text reads back from its bytes.** -/
theorem decode_encode (s : Text) : decode (encode s) = .ok s :=
  decodeWithin_encode s 0 (by rw [length_encode]; exact length_le_size s)

/-! ## Bytes that are read -/

theorem toUInt8_eq {n : Nat} {b : UInt8} (h : n = b.toNat) : n.toUInt8 = b := by
  rw [h]
  exact UInt8.ofNat_toNat

theorem toNat_ofNat {n : Nat} (h : n < 0x110000) (hs : n < 0xD800 ∨ 0xDFFF < n) : (Char.ofNat n).toNat = n := by
  have hvalid : n.isValidChar := by
    unfold Nat.isValidChar
    omega
  rw [Char.ofNat, dif_pos hvalid]
  rfl

theorem tail_succ_eq_ok {bits low high more read : Nat} {bytes rest : Bytes} {c : Char}
    (h : tail bits low high (more + 1) read bytes = .ok (c, rest)) : ∃ b behind, bytes = b :: behind ∧
      low ≤ b.toNat ∧ b.toNat ≤ high ∧
      tail (bits * 64 + (b.toNat - 0x80)) 0x80 0xBF more (read + 1) behind = .ok (c, rest) := by
  cases bytes with
  | nil => cases h
  | cons b behind =>
    rw [tail] at h
    split at h
    · rename_i hb
      exact ⟨b, behind, rfl, hb.1, hb.2, h⟩
    · cases h

theorem tail_zero_eq_ok {bits low high read : Nat} {bytes rest : Bytes} {c : Char}
    (h : tail bits low high 0 read bytes = .ok (c, rest)) : c = Char.ofNat bits ∧ bytes = rest := by
  rw [tail_zero] at h
  cases h
  exact ⟨rfl, rfl⟩

/-- What a first byte says: the bounds of the second one rule out longer forms and what is no character. -/
theorem continuation?_eq_some {first low high more : Nat} (h : continuation? first = some (low, high, more)) :
    0x80 ≤ low ∧ high ≤ 0xBF ∧
    (more = 1 ∧ 0xC2 ≤ first ∧ first ≤ 0xDF ∨
      more = 2 ∧ 0xE0 ≤ first ∧ first ≤ 0xEF ∧ (first = 0xE0 → 0xA0 ≤ low) ∧ (first = 0xED → high ≤ 0x9F) ∨
      more = 3 ∧ 0xF0 ≤ first ∧ first ≤ 0xF4 ∧ (first = 0xF0 → 0x90 ≤ low) ∧ (first = 0xF4 → high ≤ 0x8F)) := by
  unfold continuation? at h
  repeat' split at h
  all_goals
    cases h
    try omega

theorem encodeChar_two {n : Nat} {b b₁ : UInt8} (hn : n = (b.toNat - 0xC0) * 64 + (b₁.toNat - 0x80))
    (hb : 0xC2 ≤ b.toNat ∧ b.toNat ≤ 0xDF) (hb₁ : 0x80 ≤ b₁.toNat ∧ b₁.toNat ≤ 0xBF) :
    encodeChar (Char.ofNat n) = [b, b₁] := by
  rw [encodeChar, toNat_ofNat (by omega) (by omega), if_neg (by omega), if_pos (by omega),
    toUInt8_eq (b := b) (by omega), toUInt8_eq (b := b₁) (by omega)]

theorem encodeChar_three {n : Nat} {b b₁ b₂ : UInt8}
    (hn : n = ((b.toNat - 0xE0) * 64 + (b₁.toNat - 0x80)) * 64 + (b₂.toNat - 0x80))
    (hb : 0xE0 ≤ b.toNat ∧ b.toNat ≤ 0xEF) (hb₁ : 0x80 ≤ b₁.toNat ∧ b₁.toNat ≤ 0xBF)
    (hb₂ : 0x80 ≤ b₂.toNat ∧ b₂.toNat ≤ 0xBF) (hlong : b.toNat = 0xE0 → 0xA0 ≤ b₁.toNat)
    (hsurrogate : b.toNat = 0xED → b₁.toNat ≤ 0x9F) : encodeChar (Char.ofNat n) = [b, b₁, b₂] := by
  rw [encodeChar, toNat_ofNat (by omega) (by omega), if_neg (by omega), if_neg (by omega), if_pos (by omega),
    toUInt8_eq (b := b) (by omega), toUInt8_eq (b := b₁) (by omega), toUInt8_eq (b := b₂) (by omega)]

theorem encodeChar_four {n : Nat} {b b₁ b₂ b₃ : UInt8}
    (hn : n = (((b.toNat - 0xF0) * 64 + (b₁.toNat - 0x80)) * 64 + (b₂.toNat - 0x80)) * 64 + (b₃.toNat - 0x80))
    (hb : 0xF0 ≤ b.toNat ∧ b.toNat ≤ 0xF4) (hb₁ : 0x80 ≤ b₁.toNat ∧ b₁.toNat ≤ 0xBF)
    (hb₂ : 0x80 ≤ b₂.toNat ∧ b₂.toNat ≤ 0xBF) (hb₃ : 0x80 ≤ b₃.toNat ∧ b₃.toNat ≤ 0xBF)
    (hlong : b.toNat = 0xF0 → 0x90 ≤ b₁.toNat) (hlast : b.toNat = 0xF4 → b₁.toNat ≤ 0x8F) :
    encodeChar (Char.ofNat n) = [b, b₁, b₂, b₃] := by
  rw [encodeChar, toNat_ofNat (by omega) (by omega), if_neg (by omega), if_neg (by omega), if_neg (by omega),
    toUInt8_eq (b := b) (by omega), toUInt8_eq (b := b₁) (by omega), toUInt8_eq (b := b₂) (by omega),
    toUInt8_eq (b := b₃) (by omega)]

/-- **What is read as a character** are the bytes of the character. -/
theorem encodeChar_of_decodeChar {b : UInt8} {bytes rest : Bytes} {c : Char}
    (h : decodeChar b bytes = .ok (c, rest)) : encodeChar c ++ rest = b :: bytes := by
  rw [decodeChar] at h
  split at h
  · rename_i hb
    cases h
    rw [encodeChar, toNat_ofNat (by omega) (by omega), if_pos hb, toUInt8_eq rfl]
    rfl
  split at h
  · cases h
  rename_i low high more hcont
  obtain ⟨hlow, hhigh, ⟨rfl, hfirst⟩ | ⟨rfl, hleast, hmost, hlong, hsurrogate⟩ |
    ⟨rfl, hleast, hmost, hlong, hlast⟩⟩ := continuation?_eq_some hcont
  · obtain ⟨b₁, bytes, rfl, hle, hge, h⟩ := tail_succ_eq_ok h
    obtain ⟨hc, rfl⟩ := tail_zero_eq_ok h
    have hbits : leadBits b.toNat = b.toNat - 0xC0 := if_pos (by omega)
    rw [hc, hbits, encodeChar_two rfl hfirst ⟨by omega, by omega⟩]
    rfl
  · obtain ⟨b₁, bytes, rfl, hle₁, hge₁, h⟩ := tail_succ_eq_ok h
    obtain ⟨b₂, bytes, rfl, hle₂, hge₂, h⟩ := tail_succ_eq_ok h
    obtain ⟨hc, rfl⟩ := tail_zero_eq_ok h
    have hbits : leadBits b.toNat = b.toNat - 0xE0 := by
      rw [leadBits, if_neg (by omega), if_pos (by omega)]
    rw [hc, hbits, encodeChar_three rfl ⟨hleast, hmost⟩ ⟨by omega, by omega⟩ ⟨hle₂, hge₂⟩ (by omega) (by omega)]
    rfl
  · obtain ⟨b₁, bytes, rfl, hle₁, hge₁, h⟩ := tail_succ_eq_ok h
    obtain ⟨b₂, bytes, rfl, hle₂, hge₂, h⟩ := tail_succ_eq_ok h
    obtain ⟨b₃, bytes, rfl, hle₃, hge₃, h⟩ := tail_succ_eq_ok h
    obtain ⟨hc, rfl⟩ := tail_zero_eq_ok h
    have hbits : leadBits b.toNat = b.toNat - 0xF0 := by
      rw [leadBits, if_neg (by omega), if_neg (by omega)]
    rw [hc, hbits, encodeChar_four rfl ⟨hleast, hmost⟩ ⟨by omega, by omega⟩ ⟨hle₂, hge₂⟩ ⟨hle₃, hge₃⟩ (by omega)
      (by omega)]
    rfl

theorem encode_of_decodeWithin : ∀ {n index : Nat} {bytes : Bytes} {s : Text},
    decodeWithin n index bytes = .ok s → encode s = bytes
  | n, _, [], _, h => by
    cases n <;> cases h <;> rfl
  | 0, _, _ :: _, _, h => by cases h
  | n + 1, index, b :: bytes, s, h => by
    rw [decodeWithin] at h
    split at h
    · cases h
    rename_i c rest hread
    cases hrest : decodeWithin n (index + c.utf8Size) rest with
    | error e =>
      rw [hrest] at h
      cases h
    | ok s =>
      rw [hrest] at h
      cases h
      rw [encode_cons, encode_of_decodeWithin hrest, encodeChar_of_decodeChar hread]

/-- **Bytes that are read are those of the text**: no text has other bytes. -/
theorem encode_of_decode {bytes : Bytes} {s : Text} (h : decode bytes = .ok s) : encode s = bytes :=
  encode_of_decodeWithin h

end SeriesCache.Utf8
