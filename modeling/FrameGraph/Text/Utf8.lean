/-
Strict UTF-8, read one byte at a time.

`scan` cuts any bytes into pieces: a character, or a stray sequence, which is the longest run of bytes that begins a
character and is not continued as one (a single byte if none begins there). Bytes of a character that is still
incomplete at the end stay in `begun`. No byte is lost: `Scan.bytes (scan bs) = bs` up to the encoding of characters.
-/
namespace FrameGraph.Text.Utf8

/-- the beginning of a character of two to four bytes: what was read, and what the next byte may be -/
structure Begun where
  bytes : List UInt8
  code : Nat
  owed : Nat
  lowest : UInt8
  highest : UInt8
  deriving DecidableEq, Repr

/-- what one more byte makes of the bytes before it -/
inductive Advance where
  | complete (c : Char)
  | begun (b : Begun)
  | refused

/-- a byte where a character begins; overlong forms, surrogates and codes past the last plane are refused at the first
byte that rules a character out -/
def lead (b : UInt8) : Advance :=
  if b < 0x80 then .complete (Char.ofNat b.toNat)
  else if 0xC2 ≤ b ∧ b ≤ 0xDF then .begun ⟨[b], b.toNat - 0xC0, 1, 0x80, 0xBF⟩
  else if 0xE0 ≤ b ∧ b ≤ 0xEF then
    .begun ⟨[b], b.toNat - 0xE0, 2, if b = 0xE0 then 0xA0 else 0x80, if b = 0xED then 0x9F else 0xBF⟩
  else if 0xF0 ≤ b ∧ b ≤ 0xF4 then
    .begun ⟨[b], b.toNat - 0xF0, 3, if b = 0xF0 then 0x90 else 0x80, if b = 0xF4 then 0x8F else 0xBF⟩
  else .refused

/-- a byte inside a character -/
def Begun.extend (p : Begun) (b : UInt8) : Advance :=
  if p.lowest ≤ b ∧ b ≤ p.highest then
    let code := p.code * 64 + (b.toNat - 0x80)
    if p.owed ≤ 1 then .complete (Char.ofNat code)
    else .begun ⟨p.bytes ++ [b], code, p.owed - 1, 0x80, 0xBF⟩
  else .refused

/-- a character, or bytes that are none -/
inductive Piece where
  | char (c : Char)
  | stray (bytes : List UInt8)
  deriving DecidableEq, Repr

/-- the bytes a piece was read from -/
def Piece.bytes : Piece → List UInt8
  | .char c => String.utf8EncodeChar c
  | .stray bs => bs

def Piece.char? : Piece → Option Char
  | .char c => some c
  | .stray _ => none

def Piece.stray? : Piece → Option (List UInt8)
  | .char _ => none
  | .stray bs => some bs

/-- pieces read so far and the bytes of a character not yet complete -/
structure Scan where
  pieces : Array Piece
  begun : Option Begun

namespace Scan

def empty : Scan := ⟨#[], none⟩

/-- a byte that begins a piece -/
def opening (s : Scan) (b : UInt8) : Scan :=
  match lead b with
  | .complete c => ⟨s.pieces.push (.char c), none⟩
  | .begun p => ⟨s.pieces, some p⟩
  | .refused => ⟨s.pieces.push (.stray [b]), none⟩

def step (s : Scan) (b : UInt8) : Scan :=
  match s.begun with
  | none => s.opening b
  | some p =>
    match p.extend b with
    | .complete c => ⟨s.pieces.push (.char c), none⟩
    | .begun p => ⟨s.pieces, some p⟩
    | .refused => opening ⟨s.pieces.push (.stray p.bytes), none⟩ b

/-- bytes of the character that the input breaks off in, empty between characters -/
def unfinished (s : Scan) : List UInt8 :=
  match s.begun with
  | none => []
  | some p => p.bytes

/-- all bytes read -/
def bytes (s : Scan) : List UInt8 :=
  s.pieces.toList.flatMap Piece.bytes ++ s.unfinished

end Scan

/-- cut bytes into characters and stray sequences -/
def scan (bs : List UInt8) : Scan := bs.foldl Scan.step .empty

/-- the characters before the first stray sequence -/
def leadingChars (ps : List Piece) : List Char := (ps.takeWhile (·.char?.isSome)).filterMap Piece.char?

/-- the first stray sequence -/
def firstStray (ps : List Piece) : Option (List UInt8) := ps.findSome? Piece.stray?

/-- number of bytes that show a stray sequence to be one: a byte that begins no character shows it by itself, any other
sequence only by the byte behind it -/
def settling : List UInt8 → Nat
  | [] => 0
  | b :: bs =>
    match lead b with
    | .refused => 1
    | .begun _ | .complete _ => bs.length + 2

/-- bytes of a text -/
def encode (cs : List Char) : List UInt8 := cs.flatMap String.utf8EncodeChar

/-- length of a text in bytes -/
def length (cs : List Char) : Nat := (cs.map Char.utf8Size).foldr (· + ·) 0

end FrameGraph.Text.Utf8
