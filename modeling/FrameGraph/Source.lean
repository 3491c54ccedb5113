/-
Sources of characters: bytes that are decoded, or text that is already there.

A source of bytes ends or fails after its last byte; decoding delivers the characters before the first sequence that is
no UTF-8 and then at most one error. A failure of the source is reported in place of an incomplete character before it.
-/
import FrameGraph.Position
import FrameGraph.Text.Utf8

namespace FrameGraph

/-- why a source of characters broke off -/
inductive DecodeError where
  | io (message : String)
  | invalidUtf8 (bytes : List UInt8)
  deriving DecidableEq, Repr

namespace DecodeError

/-- hexadecimal, lower case, no leading zeros -/
def byteText (b : UInt8) : String := String.ofList (Nat.toDigits 16 b.toNat)

def message : DecodeError → String
  | .io m => "IO error (" ++ m ++ ")"
  | .invalidUtf8 bs => "invalid UTF-8 sequence [" ++ String.intercalate ", " (bs.map byteText) ++ "]"

end DecodeError

/-- bytes, and the message of the failure that follows them, if one does -/
structure ByteSource where
  bytes : List UInt8
  failure : Option String
  deriving DecidableEq, Repr

namespace ByteSource

def ofBytes (bs : List UInt8) : ByteSource := ⟨bs, none⟩

/-- the source `bs` of which only the first `n` bytes can be had; shorter data simply end -/
def failingAfter (bs : List UInt8) (n : Nat) (message : String) : ByteSource :=
  if n ≤ bs.length then ⟨bs.take n, some message⟩ else ⟨bs, none⟩

end ByteSource

/-- characters, and the error that follows them, if one does -/
structure CharSource where
  chars : List Char
  fault : Option DecodeError
  deriving DecidableEq, Repr

namespace CharSource

/-- a text in memory never fails -/
def ofString (s : String) : CharSource := ⟨s.toList, none⟩

/-- each character with its position -/
def located (s : CharSource) : List (Located Char) :=
  (s.chars.foldl (fun (acc, p) c => (acc.push ⟨c, p⟩, p.after c)) (#[], Position.start)).1.toList

end CharSource

/-- decode, up to the first error -/
def ByteSource.decode (s : ByteSource) : CharSource :=
  let scanned := Text.Utf8.scan s.bytes
  let pieces := scanned.pieces.toList
  let fault :=
    match Text.Utf8.firstStray pieces, s.failure with
    | some stray, _ => some (.invalidUtf8 stray)
    | none, some m => some (.io m)
    | none, none => if scanned.unfinished.isEmpty then none else some (.invalidUtf8 scanned.unfinished)
  ⟨Text.Utf8.leadingChars pieces, fault⟩

end FrameGraph
