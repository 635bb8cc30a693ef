/-
# Checking values against specs

A value meets a named type if it is of the type, a class if it belongs to it, and
nested fields if it is a mapping whose values meet the specs under their keys. Null
meets a spec only if the spec is optional. Only declared keys count, and nested
fields without any key are never met.

Each check of fields in which a field fails writes one record, after the records of
the checks inside it.

A spec is checked as it is written: shorthand and normal form mean the same.

Key definitions:
* `Value.meets`: whether a value meets a type.
* `Value.fieldResult`: the outcome of a field; it is true or false, except that null
  gives the optional flag itself.
* `Value.failingKeys`: the keys of the fields that fail.
-/
import ArgSchema.Trace
import ArgSchema.Spec.Basic

namespace ArgSchema

namespace Value

/-- The value that a mapping holds under a declared key, null if there is none. -/
def valueAt (vs : Entries) (key : Value) : Except Fault Value := do
  .ok ((← lookup? vs key).getD null)

/-- Whether `v` meets a type without parts. As a shorthand, text names a type and a
class stands for itself. -/
def meetsLeaf (v : Value) (shorthand : Bool) (t : Value) : Except Fault Bool :=
  match t with
  | .typeName name => v.isOfType name
  | .instanceOf c => v.isInstance c
  | t =>
    if shorthand then
      match t.leafConstraint with
      | .typeName name => v.isOfType name
      | .instanceOf c => v.isInstance c
      | _ => .ok false
    else .ok false

/-- Writes a record of the keys of failing fields, if there are any. -/
def report (mode : Mode) (failing : List Value) : Traced Unit :=
  if failing.isEmpty then pure () else .write (.failed mode failing)

/-- Whether `v` meets nested fields: it is a mapping, there are fields, and none of them
fails. `failing` gives the keys of the failing fields of a mapping. -/
def meetsFields (v : Value) (fields : Entries) (failing : Entries → Traced (List Value)) :
    Traced Bool :=
  match v.entries? with
  | none => pure false
  | some vs => do
    let _ ← Traced.lift (normalizeEntries fields)
    if fields.isEmpty then pure false
    else
      let keys ← failing vs
      report .named keys
      pure keys.isEmpty

/-- The outcome of a field whose value is null is its flag, otherwise it is computed. -/
def unlessNull (v flag : Value) (outcome : Traced Bool) : Traced Value :=
  if v.isNull then pure flag else do pure (ofBool (← outcome))

mutual
/-- Whether `v`, which is not null, meets a type. Where shorthand is not allowed only a
constraint can be met. -/
def meets (v : Value) (shorthand : Bool) : Value → Traced Bool
  | .nested fields => meetsFields v fields fun vs => failingKeys (valueAt vs) fields
  | .mapping _ _ es => if shorthand then meetsFields v es fun vs => failingKeys (valueAt vs) es else pure false
  | .schema _ _ fields =>
    if shorthand then meetsFields v fields fun vs => failingKeys (valueAt vs) fields else pure false
  | t => .lift (v.meetsLeaf shorthand t)

/-- The outcome of a field with the value `v`. -/
def fieldResult (v : Value) : Value → Traced Value
  | .fieldSpec isa optional => unlessNull v optional (meets v false isa)
  | .mapping _ _ es =>
    match meetsIsa v es with
    | some outcome => do
      let flag ← Traced.lift (optionalFlag es).truth
      unlessNull v (ofBool flag) outcome
    | none => unlessNull v (ofBool false) (meetsFields v es fun vs => failingKeys (valueAt vs) es)
  | .nested fields => unlessNull v (ofBool false) (meetsFields v fields fun vs => failingKeys (valueAt vs) fields)
  | .schema _ _ fields =>
    unlessNull v (ofBool false) (meetsFields v fields fun vs => failingKeys (valueAt vs) fields)
  | x => unlessNull v (ofBool false) (.lift (v.meetsLeaf true x))

/-- Whether `v` meets the type under "isa", if there is one. -/
def meetsIsa (v : Value) : List (Value × Value) → Option (Traced Bool)
  | [] => none
  | (k, t) :: rest => if k.hasKey [.text "isa"] then some (meets v true t) else meetsIsa v rest

/-- The keys of the fields that fail, in their order; `value` gives the value of a field. -/
def failingKeys (value : Value → Except Fault Value) : List (Value × Value) → Traced (List Value)
  | [] => pure []
  | (k, x) :: rest => do
    let v ← Traced.lift (value k)
    let outcome ← fieldResult v x
    let ok ← Traced.lift outcome.truth
    let keys ← failingKeys value rest
    pure (if ok then keys else k :: keys)
end

/-- The outcome of checking one value against one spec, written in any form. -/
def isFieldValid (v spec : Value) : Traced Value := do
  let field ← Traced.lift spec.toField
  fieldResult v field

end Value
end ArgSchema
