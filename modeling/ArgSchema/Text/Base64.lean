/-
# Bytes in base 64

Four digits to the base 64 write three bytes. Characters other than digits are passed over, a
sign for padding ends the last group, and digits that fill no byte are a mistake.

Key definitions:
* `bytesOfBase64`: the bytes that a text writes.
-/

namespace ArgSchema

/-- The value of a digit to the base 64. -/
def base64Digit? (c : Char) : Option Nat :=
  if c.isUpper then some (c.toNat - 'A'.toNat)
  else if c.isLower then some (c.toNat - 'a'.toNat + 26)
  else if c.isDigit then some (c.toNat - '0'.toNat + 52)
  else if c = '+' then some 62
  else if c = '/' then some 63
  else none

/-- Reads digits from the one at `place` of its group on. The bits of the digit before it that
no byte has yet are `left`, and `pads` signs for padding stand before it. -/
def base64From : (place left pads : Nat) → List Char → Option (List Nat)
  | place, _, _, [] => if place = 0 then some [] else none
  | place, left, pads, c :: rest =>
    if c = '=' then
      if place < 2 then base64From place left pads rest
      else if place + pads < 3 then base64From place left (pads + 1) rest
      else some []
    else match base64Digit? c, place with
      | none, place => base64From place left pads rest
      | some d, 0 => base64From 1 d 0 rest
      | some d, 1 => do some ((4 * left + d / 16) :: (← base64From 2 (d % 16) 0 rest))
      | some d, 2 => do some ((16 * left + d / 4) :: (← base64From 3 (d % 4) 0 rest))
      | some d, _ => do some ((64 * left + d) :: (← base64From 0 0 0 rest))

/-- The bytes that a text writes in base 64, if it does. -/
def bytesOfBase64 (cs : List Char) : Option (List Nat) :=
  if cs.all fun c => c.toNat < 128 then base64From 0 0 0 cs else none

end ArgSchema
