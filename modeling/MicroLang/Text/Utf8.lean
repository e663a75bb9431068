/-!
# UTF-8

Bytes to characters and back. The decoder takes one byte at a time and refuses a sequence at the
first byte that no well-formed sequence has there; a fault names the byte at which the refused
sequence starts and the byte at which it was refused. Only the sequence of a surrogate, the half of
a pair of code units, is let pass up to its third byte.
-/

namespace MicroLang.Text.Utf8

/-- A refused sequence: where it starts, and the byte that shows it to be ill-formed (the number of
bytes, if the text ends inside it). -/
structure Fault where
  start : Nat
  seen : Nat

/-- What the decoder waits for: a new character, or `more` further bytes of one that started at
`start`, the next of them between `lo` and `hi`, with the bits so far in `bits`. -/
inductive Pending where
  | fresh
  | inside (start more : Nat) (lo hi : UInt8) (bits : Nat)

/-- The state after the first byte of a longer sequence. -/
def openSequence (start : Nat) (b : UInt8) : Option Pending :=
  if 0xC2 ≤ b && b ≤ 0xDF then some (.inside start 1 0x80 0xBF (b.toNat - 0xC0))
  else if b == 0xE0 then some (.inside start 2 0xA0 0xBF 0)
  else if b == 0xED then some (.inside start 2 0x80 0x9F 0x0D)
  else if 0xE1 ≤ b && b ≤ 0xEF then some (.inside start 2 0x80 0xBF (b.toNat - 0xE0))
  else if b == 0xF0 then some (.inside start 3 0x90 0xBF 0)
  else if 0xF1 ≤ b && b ≤ 0xF3 then some (.inside start 3 0x80 0xBF (b.toNat - 0xF0))
  else if b == 0xF4 then some (.inside start 3 0x80 0x8F 4)
  else none

/-- The position at which the byte `b` at `pos` is refused, when a byte up to `hi` has to come next.
Only after the first byte of a surrogate is `hi` 0x9F, and then its second byte is let pass. -/
def refusedAt (pos : Nat) (hi b : UInt8) : Nat :=
  if hi == 0x9F && 0xA0 ≤ b && b ≤ 0xBF then pos + 1 else pos

/-- The characters that the bytes from position `pos` on hold, up to a fault if there is one. -/
def decodeFrom (pos : Nat) : Pending → List UInt8 → List Char × Option Fault
  | .fresh, [] => ([], none)
  | .inside start .., [] => ([], some ⟨start, pos⟩)
  | .fresh, b :: bytes =>
    if b < 0x80 then
      let (cs, fault) := decodeFrom (pos + 1) .fresh bytes
      (Char.ofNat b.toNat :: cs, fault)
    else match openSequence pos b with
      | none => ([], some ⟨pos, pos⟩)
      | some pending => decodeFrom (pos + 1) pending bytes
  | .inside start more lo hi bits, b :: bytes =>
    if lo ≤ b && b ≤ hi then
      let bits := bits * 64 + (b.toNat - 0x80)
      if more ≤ 1 then
        let (cs, fault) := decodeFrom (pos + 1) .fresh bytes
        (Char.ofNat bits :: cs, fault)
      else decodeFrom (pos + 1) (.inside start (more - 1) 0x80 0xBF bits) bytes
    else ([], some ⟨start, refusedAt pos hi b⟩)

/-- The text that the bytes hold, or the first fault. -/
def decode (bytes : List UInt8) : Except Fault (List Char) :=
  match decodeFrom 0 .fresh bytes with
  | (cs, none) => .ok cs
  | (_, some fault) => .error fault

/-- The bytes of one character. -/
def encodeChar (c : Char) : List UInt8 :=
  let n := c.toNat
  if n < 0x80 then [n.toUInt8]
  else if n < 0x800 then [(0xC0 + n / 64).toUInt8, (0x80 + n % 64).toUInt8]
  else if n < 0x10000 then
    [(0xE0 + n / 4096).toUInt8, (0x80 + n / 64 % 64).toUInt8, (0x80 + n % 64).toUInt8]
  else
    [(0xF0 + n / 262144).toUInt8, (0x80 + n / 4096 % 64).toUInt8, (0x80 + n / 64 % 64).toUInt8,
      (0x80 + n % 64).toUInt8]

/-- The bytes of a text. -/
def encode (text : String) : List UInt8 :=
  text.toList.flatMap encodeChar

end MicroLang.Text.Utf8
