import SeriesCache.Text
/-!
# Texts as bytes

The UTF-8 form of a text, its length, and the reading of bytes as a text.  Bytes that are no
UTF-8 are refused at the first sequence that is wrong, with the place of that sequence and the
number of its bytes that could still have been the start of a character; when the bytes end
too early there is no such number.
-/
namespace SeriesCache

abbrev Bytes := List UInt8

namespace Utf8

def encodeChar (c : Char) : Bytes :=
  let n := c.toNat
  if n < 0x80 then [n.toUInt8]
  else if n < 0x800 then [(0xC0 + n / 64).toUInt8, (0x80 + n % 64).toUInt8]
  else if n < 0x10000 then
    [(0xE0 + n / 4096).toUInt8, (0x80 + n / 64 % 64).toUInt8, (0x80 + n % 64).toUInt8]
  else
    [(0xF0 + n / 262144).toUInt8, (0x80 + n / 4096 % 64).toUInt8,
     (0x80 + n / 64 % 64).toUInt8, (0x80 + n % 64).toUInt8]

def encode (s : Text) : Bytes := s.flatMap encodeChar

def size : Text → Nat
  | [] => 0
  | c :: s => c.utf8Size + size s

/-- Where bytes stop being UTF-8, and how many bytes there are wrong; `none` when the bytes end
inside a character. -/
structure Flaw where
  index : Nat
  length : Option Nat
  deriving DecidableEq

/-- The bounds of the byte after a first byte, and the number of bytes still to come; `none`
for a byte that starts no character of several bytes. -/
def continuation? (first : Nat) : Option (Nat × Nat × Nat) :=
  if 0xC2 ≤ first ∧ first ≤ 0xDF then some (0x80, 0xBF, 1)
  else if first = 0xE0 then some (0xA0, 0xBF, 2)
  else if first = 0xED then some (0x80, 0x9F, 2)
  else if 0xE1 ≤ first ∧ first ≤ 0xEF then some (0x80, 0xBF, 2)
  else if first = 0xF0 then some (0x90, 0xBF, 3)
  else if 0xF1 ≤ first ∧ first ≤ 0xF3 then some (0x80, 0xBF, 3)
  else if first = 0xF4 then some (0x80, 0x8F, 3)
  else none

/-- The bits of a first byte that belong to the character. -/
def leadBits (first : Nat) : Nat :=
  if first < 0xE0 then first - 0xC0 else if first < 0xF0 then first - 0xE0 else first - 0xF0

/-- The rest of a character of which the bits so far, the bounds of the next byte, the number
of bytes to come and the number read are known. -/
def tail (bits low high : Nat) : Nat → Nat → Bytes → Except (Option Nat) (Char × Bytes)
  | 0, _, rest => .ok (Char.ofNat bits, rest)
  | _ + 1, _, [] => .error none
  | more + 1, read, b :: rest =>
    if low ≤ b.toNat ∧ b.toNat ≤ high then
      tail (bits * 64 + (b.toNat - 0x80)) 0x80 0xBF more (read + 1) rest
    else .error (some read)

/-- The character at the front of bytes, and the bytes after it. -/
def decodeChar : UInt8 → Bytes → Except (Option Nat) (Char × Bytes)
  | b, rest =>
    if b.toNat < 0x80 then .ok (Char.ofNat b.toNat, rest)
    else match continuation? b.toNat with
      | none => .error (some 1)
      | some (low, high, more) => tail (leadBits b.toNat) low high more 1 rest

def decodeWithin : Nat → Nat → Bytes → Except Flaw Text
  | _, _, [] => .ok []
  | 0, index, _ :: _ => .error ⟨index, none⟩
  | n + 1, index, b :: rest =>
    match decodeChar b rest with
    | .error length => .error ⟨index, length⟩
    | .ok (c, rest) => (decodeWithin n (index + c.utf8Size) rest).map (c :: ·)

def decode (bytes : Bytes) : Except Flaw Text := decodeWithin bytes.length 0 bytes

end Utf8
end SeriesCache
