/-
# Named types

The sixteen types that a schema can ask for by name. A name that is not among them
is asked for in vain.

Key definitions:
* `NamedType`: the types.
* `NamedType.holds`: whether a value is of a type.
* `Value.isOfType`: the same by name.
-/
import ArgSchema.Value.Length

namespace ArgSchema

/-- A type that has a name of its own. -/
inductive NamedType where
  | whole | real | natural | string | number | boolean | array | object | plainObject
  | function | date | regexp | null | empty | finite | element
  deriving DecidableEq, Repr

namespace NamedType

def name : NamedType → String
  | .whole => "whole"
  | .real => "real"
  | .natural => "natural"
  | .string => "string"
  | .number => "number"
  | .boolean => "boolean"
  | .array => "array"
  | .object => "object"
  | .plainObject => "plainObject"
  | .function => "function"
  | .date => "date"
  | .regexp => "regexp"
  | .null => "null"
  | .empty => "empty"
  | .finite => "finite"
  | .element => "element"

/-- Every named type, in the order they are listed in. -/
def all : List NamedType :=
  [.whole, .real, .natural, .string, .number, .boolean, .array, .object, .plainObject,
   .function, .date, .regexp, .null, .empty, .finite, .element]

/-- The type called `s`. -/
def ofName? (s : String) : Option NamedType := all.find? fun t => t.name == s

end NamedType

/-- A real number, as exact as it is given. -/
inductive Quantity where
  | integer (n : Int)
  | double (x : Double)
  | fraction (q : Rat)
  deriving DecidableEq, Repr

namespace Quantity

/-- The remainder of division by one, with the sign of one. -/
def remainder : Quantity → Quantity
  | .integer n => .integer (n % 1)
  | .double x => .double x.remainder
  | .fraction q => .fraction (q - q.floor)

def isZero : Quantity → Bool
  | .integer n => n == 0
  | .double x => x.isZero
  | .fraction q => q == 0

/-- Division by one leaves no remainder. -/
def isWhole (q : Quantity) : Bool := q.remainder.isZero

def isNonnegative : Quantity → Bool
  | .integer n => decide (0 ≤ n)
  | .double x => x.isNonnegative
  | .fraction q => decide (0 ≤ q.num)

/-- Integers and fractions are finite whatever their size. -/
def isFinite : Quantity → Bool
  | .double x => x.isFinite
  | _ => true

end Quantity

namespace Value

/-- The real number that a value is; booleans and NaN are none. -/
def quantity? : Value → Option Quantity
  | .atom (.int _ n) => some (.integer n)
  | .atom (.float _ x) => if x.isNaN then none else some (.double x)
  | .atom (.fraction q) => some (.fraction q)
  | _ => none

/-- Neither null nor a scalar: containers, functions, classes, instances. -/
def isObject (v : Value) : Bool :=
  !(v.isNull || v.isA .str || v.isA .bytes || v.isA .number)

end Value

namespace NamedType

/-- Whether `v` is of the type. Only a length that cannot be is a fault. -/
def holds (v : Value) : NamedType → Except Fault Bool
  | .whole => .ok (v.quantity?.any Quantity.isWhole)
  | .real => .ok v.quantity?.isSome
  | .natural => .ok (v.quantity?.any fun q => q.isWhole && q.isNonnegative)
  | .string => .ok v.text?.isSome
  | .number => .ok v.quantity?.isSome
  | .boolean => .ok (v.isA .bool)
  | .array => .ok v.listItems?.isSome
  | .object => .ok v.isObject
  | .plainObject => .ok v.entries?.isSome
  | .function => .ok (v.isA .callable)
  | .date => .ok (v.isA .date)
  | .regexp => .ok (v.isA .pattern)
  | .null => .ok v.isNull
  | .empty => v.isEmpty
  | .finite => .ok (v.quantity?.any Quantity.isFinite)
  | .element => .ok (v.isA .element)

end NamedType

namespace Value

/-- Whether a value is of the type called `s`. -/
def isOfTypeNamed (v : Value) (s : String) : Except Fault Bool :=
  match NamedType.ofName? s with
  | some t => t.holds v
  | none => .ok false

/-- Whether a value is of the type that `name` names; only text names a type. -/
def isOfType (v name : Value) : Except Fault Bool :=
  match name.text? with
  | some s => v.isOfTypeNamed s
  | none => .ok false

/-- The names of all types that a value is of. -/
def typeNames (v : Value) : Except Fault (List String) := do
  let types ← NamedType.all.filterM fun t => t.holds v
  .ok (types.map NamedType.name)

mutual
/-- Whether a value belongs to what stands for a class: a class, alternatives of
classes, or a tuple of such, tried in order. -/
def isInstance (v : Value) : Value → Except Fault Bool
  | .atom (.cls c) => .ok (v.isA c)
  | .atom (.typeAlias .intOrStr) => .ok (v.isA .int || v.isA .str)
  | .atom (.typeAlias _) => .error .parameterizedClass
  | .collection kind _ items =>
    match kind with
    | .tuple | .tupleSub | .point => isInstanceOfAny v items
    | _ => .error .notAClass
  | _ => .error .notAClass

def isInstanceOfAny (v : Value) : List Value → Except Fault Bool
  | [] => .ok false
  | c :: rest => do
    if ← v.isInstance c then .ok true else isInstanceOfAny v rest
end

end Value
end ArgSchema
