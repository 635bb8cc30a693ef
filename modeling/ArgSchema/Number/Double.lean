/-
# Double precision numbers

A finite double is a sign, a natural mantissa and a power of two, so every
question about it (is it whole, which rational is it, which decimal writes it)
is settled in exact arithmetic and no rounding hides in a primitive.

Key definitions:
* `Double`: the numbers, finite ones with the exponents that there are.
* `Double.ofRatio`: the double nearest to a quotient, a tie to the even mantissa.
* `Double.remainder`, `Double.isWhole`: division by one.
* `Double.ofDecimal`: the double nearest to a decimal.
* `Double.shortest`: the shortest decimal that rounds back to a double.
* `Double.text`: the written form of a double.
-/
namespace ArgSchema

/-- The exponent of the smallest positive double. -/
def Double.leastExponent : Int := -1074

/-- A double precision number. A finite one is `± mantissa · 2 ^ exponent`; none is finer
than the smallest positive one. A NaN is told apart from other NaNs by the object that
holds it. -/
inductive Double where
  | finite (negative : Bool) (mantissa : Nat) (exponent : Int) (least : Double.leastExponent ≤ exponent)
  | infinite (negative : Bool)
  | nan (id : Nat)
  deriving DecidableEq, Repr

/-- The natural number nearest to `num / den`, a half going to the even neighbour. -/
def roundDiv (num den : Nat) : Nat :=
  let q := num / den
  let r := num % den
  if 2 * r < den then q else if den < 2 * r then q + 1 else q + q % 2

/-- `base ^ e` when `e` is not negative, otherwise one. -/
def powUp (base : Nat) (e : Int) : Nat := base.pow e.toNat

/-- `num / den ≥ base ^ e`. -/
def atLeastPow (num den base : Nat) (e : Int) : Bool :=
  den * powUp base e ≤ num * powUp base (-e)

namespace Double

/-- The exponent of the largest finite doubles. -/
def greatestExponent : Int := 971

/-- The least mantissa of a double whose exponent is not the least one. -/
def leastMantissa : Nat := Nat.pow 2 52

/-- The mantissas of doubles end before this one. -/
def mantissaLimit : Nat := Nat.pow 2 53

/-- Zero, with its sign. -/
def zero (negative : Bool) : Double := .finite negative 0 leastExponent (Int.le_refl _)

def one : Double := .finite false 1 0 (by decide)

/-- The double with a mantissa and an exponent, or an infinity if the exponent is too large. -/
def ofParts (negative : Bool) (m : Nat) (e : Int) (least : leastExponent ≤ e) : Double :=
  if greatestExponent < e then .infinite negative else .finite negative m e least

/-- The exponent that `num / den` is rounded at: the mantissa has 53 bits unless the exponent is
the least one. -/
def exponentFor (num den : Nat) : Int :=
  let near : Int := (num.log2 : Int) - den.log2
  let scale := if atLeastPow num den 2 near then near else near - 1
  max (scale - 52) leastExponent

theorem leastExponent_le_exponentFor (num den : Nat) : leastExponent ≤ exponentFor num den :=
  Int.le_max_right _ _

/-- The double nearest to `num / den`, a tie going to the even mantissa. -/
def ofRatio (negative : Bool) (num den : Nat) : Double :=
  if num = 0 then zero negative else
  let e := exponentFor num den
  have least := leastExponent_le_exponentFor num den
  let m := roundDiv (num * powUp 2 (-e)) (den * powUp 2 e)
  if m = mantissaLimit then ofParts negative leastMantissa (e + 1) (Int.le_add_one least)
  else ofParts negative m e least

/-- The double nearest to `coefficient · 10 ^ exponent`. Far outside the range the
answer is zero or an infinity, whatever the digits are. -/
def ofDecimal (negative : Bool) (coefficient : Nat) (exponent : Int) : Double :=
  let magnitude : Int := (Nat.log2 coefficient : Int) * 3 / 10 + exponent
  if coefficient = 0 ∨ magnitude < -400 then zero negative
  else if 400 < magnitude then .infinite negative
  else ofRatio negative (coefficient * powUp 10 exponent) (powUp 10 (-exponent))

/-- The double nearest to an integer. -/
def ofInt (n : Int) : Double := ofRatio (n < 0) n.natAbs 1

/-- The double nearest to a rational. -/
def ofRat (q : Rat) : Double := ofRatio (q.num < 0) q.num.natAbs q.den

/-- The rational that a finite double is. -/
def toRat? : Double → Option Rat
  | .finite negative m e _ =>
    let q := mkRat (m * powUp 2 e) (powUp 2 (-e))
    some (if negative then -q else q)
  | _ => none

def isNaN : Double → Bool
  | .nan _ => true
  | _ => false

def isFinite : Double → Bool
  | .finite .. => true
  | _ => false

/-- At least zero; both zeros are. -/
def isNonnegative : Double → Bool
  | .finite negative m _ _ => !negative || m == 0
  | .infinite negative => !negative
  | .nan _ => false

def isZero : Double → Bool
  | .finite _ m _ _ => m == 0
  | _ => false

def negate : Double → Double
  | .finite negative m e least => .finite (!negative) m e least
  | .infinite negative => .infinite (!negative)
  | .nan id => .nan id

/-- Whether the sign is a minus; a NaN has none. -/
def isNegative : Double → Bool
  | .finite negative _ _ _ => negative
  | .infinite negative => negative
  | .nan _ => false

/-- The sum, rounded once. Only two negative zeros add up to a negative zero. -/
def add (x y : Double) : Double :=
  match x, y with
  | .nan id, _ => .nan id
  | _, .nan id => .nan id
  | .infinite a, .infinite b => if a = b then x else .nan 0
  | .infinite _, _ => x
  | _, .infinite _ => y
  | x, y =>
    let q := x.toRat?.getD 0 + y.toRat?.getD 0
    if q = 0 then zero (x.isNegative && y.isNegative) else ofRat q

/-- The product, rounded once. Zero times an infinity is a NaN. -/
def multiply (x y : Double) : Double :=
  let negative := x.isNegative != y.isNegative
  match x, y with
  | .nan id, _ => .nan id
  | _, .nan id => .nan id
  | .infinite _, y => if y.isZero then .nan 0 else .infinite negative
  | x, .infinite _ => if x.isZero then .nan 0 else .infinite negative
  | x, y =>
    let q := x.toRat?.getD 0 * y.toRat?.getD 0
    ofRatio negative q.num.natAbs q.den

/-- The remainder of division by one, with the sign of one: what a negative number has below
the point is added to one, and the sum is rounded. An infinity leaves no number. -/
def remainder : Double → Double
  | .finite negative m e least =>
    let below := m % powUp 2 (-e)
    if below = 0 then zero false
    else if negative then (Double.finite true below e least).add one
    else .finite false below e least
  | .infinite _ => .nan 0
  | .nan id => .nan id

/-- Division by one leaves no remainder. -/
def isWhole (x : Double) : Bool := x.remainder.isZero

/-! ### The shortest decimal -/

/-- `coefficient · 10 ^ exponent`, without trailing zeros in the coefficient. -/
structure Digits where
  coefficient : Nat
  exponent : Int
  deriving DecidableEq, Repr

/-- Moves trailing zeros into the exponent; `fuel` bounds their number. -/
def Digits.trim : (fuel : Nat) → Digits → Digits
  | 0, d => d
  | fuel + 1, d =>
    if d.coefficient ≠ 0 ∧ d.coefficient % 10 = 0 then trim fuel ⟨d.coefficient / 10, d.exponent + 1⟩ else d

/-- The least `p` with `num / den < 10 ^ p`. -/
def decimalPlace (num den : Nat) : Int :=
  let near : Int := ((num.log2 : Int) - den.log2) * 30103 / 100000
  let candidates := (List.range 6).map fun (i : Nat) => near - 2 + (i : Int)
  (candidates.find? fun p => !atLeastPow num den 10 p).getD (near + 3)

/-- Of the decimals with `n` digits next to `value / unit`, the nearest that lies
strictly between `low / unit` and `high / unit`, or on an end if `ends` holds. -/
def nearestOnGrid (low value high unit : Nat) (ends : Bool) (place : Int) (n : Nat) :
    Option Digits :=
  let step : Int := place - n
  -- everything below is in multiples of the grid's step
  let scale := powUp 10 (-step)
  let den := unit * powUp 10 step
  let inside (d : Nat) : Bool :=
    let x := d * den
    (low * scale < x && x < high * scale) || (ends && (low * scale == x || x == high * scale))
  let below := value * scale / den
  let rest := value * scale % den
  match inside below, inside (below + 1) with
  | true, true =>
    let up := den < 2 * rest || (den == 2 * rest && below % 2 == 1)
    some ⟨if up then below + 1 else below, step⟩
  | true, false => some ⟨below, step⟩
  | false, true => some ⟨below + 1, step⟩
  | false, false => none

/-- The shortest decimal that rounds to `m · 2 ^ e`, and of those the nearest to it. -/
def shortest (m : Nat) (e : Int) : Digits :=
  let up := powUp 2 (e - 2)
  let unit := powUp 2 (2 - e)
  let value := 4 * m * up
  let high := (4 * m + 2) * up
  let low := (if m = leastMantissa ∧ leastExponent < e then 4 * m - 1 else 4 * m - 2) * up
  let place := decimalPlace value unit
  let found := (List.range 17).findSome? fun n =>
    nearestOnGrid low value high unit (m % 2 == 0) place (n + 1)
  match found with
  | some d => d.trim 20
  | none => ⟨m, e⟩

/-! ### The written form -/

/-- A decimal is written positionally while its point stands in this range, counted
from its first digit; otherwise with an exponent of at least two digits. -/
def positional (point : Int) : Bool := -4 < point && point ≤ 16

def zeros (n : Nat) : String := "".pushn '0' n

/-- `coefficient · 10 ^ exponent` as text, always with a point or an exponent. -/
def Digits.text (d : Digits) : String :=
  let ds := toString d.coefficient
  let point : Int := ds.length + d.exponent
  if positional point then
    if point ≤ 0 then "0." ++ zeros (-point).toNat ++ ds
    else if (ds.length : Int) ≤ point then ds ++ zeros (point - ds.length).toNat ++ ".0"
    else String.ofList (ds.toList.take point.toNat) ++ "." ++ String.ofList (ds.toList.drop point.toNat)
  else
    let power := point - 1
    let size := toString power.natAbs
    let tail := ds.toList.drop 1
    String.ofList (ds.toList.take 1) ++ (if tail.isEmpty then "" else "." ++ String.ofList tail)
      ++ "e" ++ (if power < 0 then "-" else "+") ++ (if size.length < 2 then "0" ++ size else size)

/-- A double as text: the shortest decimal that reads back. -/
def text : Double → String
  | .finite negative m e _ =>
    (if negative then "-" else "") ++ (if m = 0 then "0.0" else (shortest m e).text)
  | .infinite negative => if negative then "-inf" else "inf"
  | .nan _ => "nan"

end Double
end ArgSchema
