/-!
# UTF-8

Reading bytes as characters. A text that is not well formed is refused at its
first bad sequence, and the refusal says where it starts and how long it is. The
second byte of a sequence is the one that tells overlong forms and surrogates
apart, so the range it must lie in depends on the first.
-/

namespace QueryGate.Text

/-- Where bytes stop being UTF-8. -/
inductive Utf8Error where
  /-- The sequence of `length` bytes at `index` starts no character. -/
  | invalid (length index : Nat)
  /-- The text ends in the middle of the character at `index`. -/
  | incomplete (index : Nat)
  deriving Repr, DecidableEq

/-- The wording of the error. -/
def Utf8Error.message : Utf8Error → String
  | .invalid length index => s!"invalid utf-8 sequence of {length} bytes from index {index}"
  | .incomplete index => s!"incomplete utf-8 byte sequence from index {index}"

/-- What a character's first byte says: its own bits, and the range of each byte to follow. -/
structure Utf8Lead where
  /-- The bits of the code point held by the first byte. -/
  bits : Nat
  /-- The ranges of the bytes to follow. -/
  ranges : List (Nat × Nat)

/-- The range of a byte that goes on a sequence. -/
def utf8Tail : Nat × Nat := (0x80, 0xBF)

/-- Reads the first byte of a sequence. -/
def utf8Lead? (b : Nat) : Option Utf8Lead :=
  if b < 0x80 then some ⟨b, []⟩
  else if b < 0xC2 then none
  else if b < 0xE0 then some ⟨b - 0xC0, [utf8Tail]⟩
  else if b = 0xE0 then some ⟨0, [(0xA0, 0xBF), utf8Tail]⟩
  else if b = 0xED then some ⟨0xD, [(0x80, 0x9F), utf8Tail]⟩
  else if b < 0xF0 then some ⟨b - 0xE0, [utf8Tail, utf8Tail]⟩
  else if b = 0xF0 then some ⟨0, [(0x90, 0xBF), utf8Tail, utf8Tail]⟩
  else if b < 0xF4 then some ⟨b - 0xF0, [utf8Tail, utf8Tail, utf8Tail]⟩
  else if b = 0xF4 then some ⟨4, [(0x80, 0x8F), utf8Tail, utf8Tail]⟩
  else none

/-- Why a character breaks off. -/
inductive Utf8Break where
  /-- The next byte is out of range, after this many good ones. -/
  | badByte (good : Nat)
  /-- There is no next byte. -/
  | ends

/-- Takes the bytes that go on a sequence into the code point. -/
def utf8Continue (code good : Nat) : (ranges : List (Nat × Nat)) → (bytes : List UInt8) →
    Except Utf8Break Nat
  | [], _ => .ok code
  | _ :: _, [] => .error .ends
  | (low, high) :: ranges, b :: bytes =>
    if low ≤ b.toNat ∧ b.toNat ≤ high then
      utf8Continue (code * 0x40 + (b.toNat - 0x80)) (good + 1) ranges bytes
    else .error (.badByte good)

/-- Reads bytes as characters from position `index` on, passing over the `skip` bytes that
    belong to the character read last. -/
def decodeUtf8From : (index skip : Nat) → List UInt8 → Except Utf8Error (List Char)
  | _, _, [] => .ok []
  | index, skip + 1, _ :: bytes => decodeUtf8From (index + 1) skip bytes
  | index, 0, b :: bytes =>
    match utf8Lead? b.toNat with
    | none => .error (.invalid 1 index)
    | some lead =>
      match utf8Continue lead.bits 1 lead.ranges bytes with
      | .error (.badByte good) => .error (.invalid good index)
      | .error .ends => .error (.incomplete index)
      | .ok code =>
        (decodeUtf8From (index + 1) lead.ranges.length bytes).map (Char.ofNat code :: ·)

/-- Reads bytes as characters. -/
def decodeUtf8 (bytes : List UInt8) : Except Utf8Error (List Char) := decodeUtf8From 0 0 bytes

/-- The string that bytes spell. -/
def readUtf8 (bytes : List UInt8) : Except Utf8Error String :=
  (decodeUtf8 bytes).map String.ofList

/-- The bytes that spell a string. -/
def writeUtf8 (s : String) : List UInt8 := s.toUTF8.toList

end QueryGate.Text
