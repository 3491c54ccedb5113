/-
Integers as text in radix 2 to 36: digits of either case, underscores behind the first digit, a sign in front.

`readInteger` takes a signed numeral, and one plus sign before it, so that `++1` and `+-1` are read and `-+1` is not.
-/
namespace FrameGraph

/-- a radix whose digits are the ten figures and the Latin letters -/
structure Radix where
  val : Nat
  two_le : 2 ≤ val
  le_36 : val ≤ 36
  deriving DecidableEq, Repr

namespace Radix

def ofNat? (n : Nat) : Option Radix :=
  if h : 2 ≤ n ∧ n ≤ 36 then some ⟨n, h.1, h.2⟩ else none

def binary : Radix := ⟨2, by decide, by decide⟩

def decimal : Radix := ⟨10, by decide, by decide⟩

def hexadecimal : Radix := ⟨16, by decide, by decide⟩

/-- what `c` counts as a digit of any radix -/
def digitValue (c : Char) : Option Nat :=
  if '0' ≤ c ∧ c ≤ '9' then some (c.toNat - '0'.toNat)
  else if 'a' ≤ c ∧ c ≤ 'z' then some (c.toNat - 'a'.toNat + 10)
  else if 'A' ≤ c ∧ c ≤ 'Z' then some (c.toNat - 'A'.toNat + 10)
  else none

/-- what `c` counts as a digit of radix `r` -/
def digit (r : Radix) (c : Char) : Option Nat := (digitValue c).filter (· < r.val)

/-- digits and underscores behind a numeral of value `n` -/
def continueNatural (r : Radix) (n : Nat) : List Char → Option Nat
  | [] => some n
  | c :: cs =>
    if c = '_' then r.continueNatural n cs
    else
      match r.digit c with
      | some d => r.continueNatural (n * r.val + d) cs
      | none => none

/-- a digit, then digits and underscores -/
def readNatural (r : Radix) : List Char → Option Nat
  | [] => none
  | c :: cs =>
    match r.digit c with
    | some d => r.continueNatural d cs
    | none => none

/-- a numeral behind at most one sign -/
def readSigned (r : Radix) : List Char → Option Int
  | '-' :: cs => (r.readNatural cs).map fun n => -(n : Int)
  | '+' :: cs => (r.readNatural cs).map Int.ofNat
  | cs => (r.readNatural cs).map Int.ofNat

/-- a signed numeral, with one plus sign before it or without -/
def readInteger (r : Radix) : List Char → Option Int
  | '+' :: cs => r.readSigned cs
  | cs => r.readSigned cs

end Radix

/-- `mark` and the digits of `n` in radix `base`, lower case; a minus sign goes in front of the mark -/
def signedDigits (base : Nat) (mark : String) (n : Int) : String :=
  (if n < 0 then "-" else "") ++ mark ++ String.ofList (Nat.toDigits base n.natAbs)

/-- decimal text -/
def decimalText (n : Int) : String := signedDigits 10 "" n

/-- text that shows its radix, for sixteen and two; any other number asks for decimal text -/
def radixText (base : Nat) (n : Int) : String :=
  match base with
  | 16 => signedDigits 16 "0x" n
  | 2 => signedDigits 2 "0b" n
  | _ => decimalText n

end FrameGraph
