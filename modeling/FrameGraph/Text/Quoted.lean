/-
Quoted texts in messages: between double quotes, with escapes for everything that could not be told from its
surroundings.
-/
import FrameGraph.Text.Combining
import FrameGraph.Text.Unprintable
import FrameGraph.Text.Utf8

namespace FrameGraph.Text

/-- a character by its code point, in lower-case hexadecimal -/
def codePointEscape (c : Char) : List Char :=
  ['\\', 'u', '\x7b'] ++ Nat.toDigits 16 c.toNat ++ ['\x7d']

/-- a character inside quotes: combining and unprintable characters are shown by their code point -/
def quoteChar (c : Char) : List Char :=
  if c = '"' then ['\\', '"']
  else if c = '\\' then ['\\', '\\']
  else if c = '\n' then ['\\', 'n']
  else if c = '\r' then ['\\', 'r']
  else if c = '\t' then ['\\', 't']
  else if c = '\x00' then ['\\', '0']
  else if combining.contains c || unprintable.contains c then codePointEscape c
  else [c]

/-- a byte that belongs to no character, in upper-case hexadecimal of two digits -/
def quoteByte (b : UInt8) : List Char :=
  let digit (n : Nat) := (Nat.digitChar n).toUpper
  ['\\', 'x', digit (b.toNat / 16), digit (b.toNat % 16)]

def quotePiece : Utf8.Piece → List Char
  | .char c => quoteChar c
  | .stray bs => bs.flatMap quoteByte

/-- a text in quotes -/
def quoted (s : String) : String :=
  String.ofList (['"'] ++ s.toList.flatMap quoteChar ++ ['"'])

/-- bytes in quotes, read as text where they are -/
def quotedBytes (bs : List UInt8) : String :=
  let scanned := Utf8.scan bs
  String.ofList (['"'] ++ scanned.pieces.toList.flatMap quotePiece ++ scanned.unfinished.flatMap quoteByte ++ ['"'])

end FrameGraph.Text
