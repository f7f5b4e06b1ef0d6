/-!
# Hexadecimal digits

Bytes are written as two lower-case digits each; digits are read in either case.
-/

namespace Playout.Hex

/-- The lower-case digit of a number below sixteen. -/
def digit (n : Nat) : Char :=
  if n < 10 then Char.ofNat (48 + n) else Char.ofNat (87 + n)

/-- The number that a digit stands for, in either case. -/
def value? (c : Char) : Option Nat :=
  if '0' ≤ c ∧ c ≤ '9' then some (c.toNat - 48)
  else if 'a' ≤ c ∧ c ≤ 'f' then some (c.toNat - 87)
  else if 'A' ≤ c ∧ c ≤ 'F' then some (c.toNat - 55)
  else none

/-- The two digits of a byte, the high one first. -/
def ofByte (b : UInt8) : List Char :=
  [digit (b.toNat / 16), digit (b.toNat % 16)]

def ofBytes (bs : List UInt8) : List Char :=
  bs.flatMap ofByte

/-- Reads digits in pairs; a lone last digit is refused. -/
def toBytes? : List Char → Option (List UInt8)
  | [] => some []
  | [_] => none
  | h :: l :: rest => do
    let high ← value? h
    let low ← value? l
    let bytes ← toBytes? rest
    return UInt8.ofNat (16 * high + low) :: bytes

/-- The digits of a number, most significant first, in the given width. -/
def ofNat : Nat → Nat → List Char
  | 0, _ => []
  | width + 1, n => ofNat width (n / 16) ++ [digit (n % 16)]

end Playout.Hex
