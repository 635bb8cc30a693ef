/-
# Decimal numbers

A decimal keeps the digits it was written with: `1.5` and `1.50` are one number
and two decimals.

Key definitions:
* `Decimal.ofText?`: reads a decimal.
* `Decimal.text`: its written form, scientific when the point would be far off.
* `Decimal.toRat?`: the number that a finite decimal is.
* `Decimal.toDouble`, `Double.ofText?`: the double nearest to a decimal.
-/
import ArgSchema.Number.Double

namespace ArgSchema

/-- A decimal number. A finite one is `± coefficient · 10 ^ exponent`. A NaN has a sign
and a number that tells its cause, and is told apart by the object that holds it. -/
inductive Decimal where
  | finite (negative : Bool) (coefficient : Nat) (exponent : Int)
  | infinite (negative : Bool)
  | nan (negative : Bool) (cause id : Nat)
  deriving DecidableEq, Repr

/-- The natural number that decimal digits write, most significant first. -/
def natOfDigits (ds : List Char) : Nat :=
  ds.foldl (fun n d => 10 * n + (d.toNat - '0'.toNat)) 0

/-- A sign and what follows it. -/
def splitSign : List Char → Bool × List Char
  | '-' :: r => (true, r)
  | '+' :: r => (false, r)
  | r => (false, r)

namespace Decimal

/-- The exponent part of a decimal's text: empty, or `E` and an integer. -/
def exponentOf? : List Char → Option Int
  | [] => some 0
  | e :: r =>
    let (negative, ds) := splitSign r
    if (e = 'e' ∨ e = 'E') ∧ ds ≠ [] ∧ ds.all Char.isDigit then
      some (if negative then -(natOfDigits ds : Int) else natOfDigits ds)
    else none

/-- Reads a decimal; a NaN gets the identity `id`. -/
def ofText? (id : Nat) (s : String) : Option Decimal :=
  let (negative, r) := splitSign s.toList
  let word := String.ofList (r.map Char.toLower)
  if word = "inf" ∨ word = "infinity" then some (.infinite negative)
  else if (r.take 3).map Char.toLower = ['n', 'a', 'n'] ∧ (r.drop 3).all Char.isDigit then
    some (.nan negative (natOfDigits (r.drop 3)) id)
  else
    let whole := r.takeWhile Char.isDigit
    let afterWhole := r.dropWhile Char.isDigit
    let (fraction, tail) := match afterWhole with
      | '.' :: t => (t.takeWhile Char.isDigit, t.dropWhile Char.isDigit)
      | t => ([], t)
    if whole.isEmpty && fraction.isEmpty then none
    else (exponentOf? tail).map fun e =>
      .finite negative (natOfDigits (whole ++ fraction)) (e - fraction.length)

/-- The rational that a finite decimal is. -/
def toRat? : Decimal → Option Rat
  | .finite negative c e =>
    let q := mkRat (c * powUp 10 e) (powUp 10 (-e))
    some (if negative then -q else q)
  | _ => none

def isZero : Decimal → Bool
  | .finite _ c _ => c == 0
  | _ => false

/-- The digits with the point at its place when that is close by, otherwise after the
first digit with an exponent. -/
def text : Decimal → String
  | .infinite negative => if negative then "-Infinity" else "Infinity"
  | .nan negative cause _ =>
    (if negative then "-NaN" else "NaN") ++ (if cause = 0 then "" else toString cause)
  | .finite negative c e =>
    let ds := (toString c).toList
    let adjusted : Int := e + ds.length
    let point : Int := if e ≤ 0 ∧ -6 < adjusted then adjusted else 1
    let body :=
      if point ≤ 0 then '0' :: '.' :: (List.replicate (-point).toNat '0' ++ ds)
      else if (ds.length : Int) ≤ point then ds ++ List.replicate (point - ds.length).toNat '0'
      else ds.take point.toNat ++ '.' :: ds.drop point.toNat
    let power := adjusted - point
    let tail :=
      if power = 0 then ""
      else "E" ++ (if power < 0 then "-" else "+") ++ toString power.natAbs
    (if negative then "-" else "") ++ String.ofList body ++ tail

/-- The double nearest to a decimal. -/
def toDouble : Decimal → Double
  | .finite negative c e => .ofDecimal negative c e
  | .infinite negative => .infinite negative
  | .nan _ _ id => .nan id

end Decimal

/-- Reads a double from its text; a NaN gets the identity `id` and has no cause. -/
def Double.ofText? (id : Nat) (s : String) : Option Double :=
  match Decimal.ofText? id s with
  | some (.nan _ _ id) => if s.toList.any Char.isDigit then none else some (.nan id)
  | d => d.map Decimal.toDouble

end ArgSchema
