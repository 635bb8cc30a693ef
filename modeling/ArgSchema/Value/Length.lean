/-
# Length and truth

The length of a value that has one, and the truth value of any value: what has a
length is true unless the length is zero. A length is a natural number that fits a
machine word; only ranges, and objects that claim their length, can miss that.

Key definitions:
* `Value.length?`: the length, or the fault of a length that cannot be.
* `Value.isEmpty`: null, or of length zero.
* `Value.truth`: the truth value.
-/
import ArgSchema.Fault

namespace ArgSchema

/-- The integers of a machine word end before this one. -/
def wordLimit : Nat := Nat.pow 2 63

/-- Whether an integer takes more than a machine word. -/
def isHuge (i : Int) : Bool := decide (i < -(wordLimit : Int) ∨ (wordLimit : Int) ≤ i)

/-- The length of a range. -/
def rangeSize (start stop step : Int) : Except Fault Nat :=
  let n := Value.rangeLength start stop step
  if isHuge n then .error (.hugeLength .range) else .ok n

/-- The length that an object claims. -/
def claimedSize (n : Int) : Except Fault Nat :=
  if n < 0 then .error .negativeLength
  else if isHuge n then .error (.hugeLength .sizedOnly)
  else .ok n.toNat

/-- The length of an atom that has one. -/
def Atom.length? : Atom → Except Fault (Option Nat)
  | .text _ s => .ok (some s.length)
  | .bytes _ data => .ok (some data.length)
  | .range start stop step => some <$> rangeSize start stop step
  | .sized _ n => some <$> claimedSize n
  | .cls c => .ok c.memberCount?
  | _ => .ok none

/-- Whether an atom that has no length counts as true: zeros and null do not. -/
def Atom.isTruthy : Atom → Bool
  | .null => false
  | .bool b => b
  | .int _ n => n != 0
  | .float _ x => !x.isZero
  | .fraction q => q != 0
  | .decimal d => !d.isZero
  | .complex re im => !(re.isZero && im.isZero)
  | .duration d => d.microseconds != 0
  | _ => true

namespace Value

/-- The length of a value that has one. -/
def length? : Value → Except Fault (Option Nat)
  | .atom a => a.length?
  | .collection kind _ items => .ok (if kind = .generator then none else some items.length)
  | .mapping _ _ entries => .ok (some entries.length)
  | .schema _ _ fields => .ok (some fields.length)
  | _ => .ok none

/-- Null, or of length zero. -/
def isEmpty (v : Value) : Except Fault Bool :=
  if v.isNull then .ok true else do .ok ((← v.length?) == some 0)

/-- The truth value of a value. Classes are true, and a range is true if it has a number,
however many those are. -/
def truth (v : Value) : Except Fault Bool :=
  match v with
  | .atom (.cls _) => .ok true
  | .atom (.range start stop step) => .ok (rangeLength start stop step != 0)
  | v => do
    match ← v.length?, v with
    | some n, _ => .ok (n != 0)
    | none, .atom a => .ok a.isTruthy
    | none, _ => .ok true

end Value
end ArgSchema
