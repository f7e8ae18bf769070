/-
Strict UTF-8. Decoding reports the first malformed sequence: where it starts,
how many bytes belong to it, and what is wrong with it. The bytes of a
malformed sequence are its start and those continuation bytes that could still
have been part of a character.
-/
import ContractScript.Number.Notation

set_option autoImplicit false

namespace ContractScript.Text.Utf8

/-- What is wrong with a malformed sequence. -/
inductive Flaw where
  | start
  | continuation
  | truncated
deriving Repr, DecidableEq

/-- The wording of a flaw. -/
def Flaw.text : Flaw → String
  | .start => "invalid start byte"
  | .continuation => "invalid continuation byte"
  | .truncated => "unexpected end of data"

/-- A malformed sequence: its first byte, its position and length, its flaw. -/
structure Malformed where
  byte : UInt8
  position : Nat
  size : Nat
  flaw : Flaw
deriving Repr, DecidableEq

/-- Two hexadecimal digits of a byte. -/
def hexByte (b : UInt8) : String :=
  String.ofList [Nat.digitChar (b.toNat / 16), Nat.digitChar (b.toNat % 16)]

/-- The report on a malformed sequence. -/
def Malformed.message (m : Malformed) : String :=
  let place :=
    if m.size ≤ 1 then
      "byte 0x" ++ hexByte m.byte ++ " in position " ++ toString m.position
    else
      "bytes in position " ++ toString m.position ++ "-" ++ toString (m.position + m.size - 1)
  "'utf-8' codec can't decode " ++ place ++ ": " ++ m.flaw.text

/-- The bytes that may follow a start byte at once, least and greatest, and the
number of plain continuation bytes after that. `none` for a byte that starts no
longer sequence. Overlong forms, surrogates and values past the last code
point are excluded by the second byte. -/
def sequence? (b : UInt8) : Option (UInt8 × UInt8 × Nat) :=
  if b < 0xC2 then none
  else if b < 0xE0 then some (0x80, 0xBF, 0)
  else if b == 0xE0 then some (0xA0, 0xBF, 1)
  else if b == 0xED then some (0x80, 0x9F, 1)
  else if b < 0xF0 then some (0x80, 0xBF, 1)
  else if b == 0xF0 then some (0x90, 0xBF, 2)
  else if b < 0xF4 then some (0x80, 0xBF, 2)
  else if b == 0xF4 then some (0x80, 0x8F, 2)
  else none

/-- The payload bits of a start byte followed by `more` continuation bytes. -/
def startBits (b : UInt8) (more : Nat) : Nat :=
  b.toNat % (64 >>> more)

/-- The next character of a nonempty byte list: the character and the number of
bytes after the first that it takes, or the flaw and the number of such bytes
that belong to the malformed sequence. -/
def nextChar (b : UInt8) (rest : List UInt8) : Except (Flaw × Nat) (Char × Nat) :=
  if b < 0x80 then .ok (Char.ofNat b.toNat, 0)
  else
    match sequence? b with
    | none => .error (.start, 0)
    | some (low, high, more) =>
      match rest with
      | [] => .error (.truncated, 0)
      | b₁ :: rest₁ =>
        if b₁ < low || high < b₁ then .error (.continuation, 0)
        else
          let tail := (rest₁.take more).takeWhile fun c => 0x80 ≤ c && c ≤ 0xBF
          if tail.length == more then
            let bits := (b₁ :: tail).foldl (fun n c => n * 64 + c.toNat % 64) (startBits b (more + 1))
            .ok (Char.ofNat bits, more + 1)
          else if rest₁.length < more && tail.length == rest₁.length then
            .error (.truncated, tail.length + 1)
          else .error (.continuation, tail.length + 1)

/-- Decodes bytes from a position on. -/
def decodeFrom (position : Nat) : List UInt8 → Except Malformed (List Char)
  | [] => .ok []
  | b :: rest =>
    match nextChar b rest with
    | .error (flaw, more) => .error ⟨b, position, more + 1, flaw⟩
    | .ok (c, more) =>
      match decodeFrom (position + more + 1) (rest.drop more) with
      | .error m => .error m
      | .ok cs => .ok (c :: cs)
termination_by bs => bs.length
decreasing_by
  rw [List.length_drop]
  exact Nat.lt_succ_of_le (Nat.sub_le _ _)

/-- The text that bytes encode. -/
def decode (bytes : ByteArray) : Except Malformed (List Char) :=
  decodeFrom 0 bytes.toList

/-! ## Bytes that come in blocks -/

/-- Whether bytes are the first two of three that would stand for a surrogate. -/
def isSurrogateStart : List UInt8 → Bool
  | [a, b] => a == 0xED && 0xA0 ≤ b && b ≤ 0xBF
  | _ => false

/-- Decodes bytes from a position on that more may follow: an incomplete
sequence at the end is left, and so is the start of a surrogate. -/
def decodeSome (position : Nat) : List UInt8 → Except Malformed (List Char × List UInt8)
  | [] => .ok ([], [])
  | b :: rest =>
    match nextChar b rest with
    | .error (.truncated, _) => .ok ([], b :: rest)
    | .error (flaw, more) =>
      if isSurrogateStart (b :: rest) then .ok ([], b :: rest)
      else .error ⟨b, position, more + 1, flaw⟩
    | .ok (c, more) =>
      match decodeSome (position + more + 1) (rest.drop more) with
      | .error m => .error m
      | .ok (cs, left) => .ok (c :: cs, left)
termination_by bs => bs.length
decreasing_by
  rw [List.length_drop]
  exact Nat.lt_succ_of_le (Nat.sub_le _ _)

/-- The number of characters that are asked for at a time. -/
def portion : Nat := 4096

/-- The least size of a block. -/
def leastBlock : Nat := 8192

/-- The characters that are wanted next when a block gave `given` of those
wanted. More than were wanted are kept for the portions after it. -/
def wantedNext (wanted given : Nat) : Nat :=
  if given < wanted then wanted - given else portion - (given - wanted) % portion

/-- The size of a block in which the wanted characters are expected, by the
number of bytes that a character took in the block before. -/
def sizeOfBlock (bytesPerChar : Float) (wanted : Nat) : Nat :=
  max leastBlock (Number.truncate (bytesPerChar * Number.ofInt wanted)).toNat

/-- Decodes bytes that come in blocks. What the block before left is put in
front of a block, and the place of a malformed sequence is counted from there. -/
def decodeBlocks : Nat → Nat → Float → List UInt8 → List UInt8 → Except Malformed (List Char)
  | 0, _, _, left, _ => decodeFrom 0 left
  | _, _, _, left, [] => decodeFrom 0 left
  | blocks + 1, wanted, bytesPerChar, left, b :: rest =>
    let size := sizeOfBlock bytesPerChar wanted
    let block := (b :: rest).take size
    match decodeSome 0 (left ++ block) with
    | .error m => .error m
    | .ok (cs, left) =>
      let ratio := if cs.isEmpty then Number.zero false
        else Number.ofInt block.length / Number.ofInt cs.length
      match decodeBlocks blocks (wantedNext wanted cs.length) ratio left ((b :: rest).drop size) with
      | .error m => .error m
      | .ok more => .ok (cs ++ more)

/-- The text that bytes encode, which are read block by block. -/
def decodeStream (bytes : ByteArray) : Except Malformed (List Char) :=
  decodeBlocks (bytes.size / leastBlock + 1) portion (Number.zero false) [] bytes.toList

/-- The bytes of a text. -/
def encode (text : String) : ByteArray :=
  text.toUTF8

end ContractScript.Text.Utf8
