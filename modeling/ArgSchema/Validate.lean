/-
# Validation

The ways to validate values: by name against a mapping of fields, by position
against a list of fields, and freely, where the shape of the schema decides.

Key definitions:
* `validateNamed`, `validatePositional`: the two modes.
* `validate`: the mode follows from the shape of the schema.
* `named`, `positional`: the modes with every shorthand for the schema.
* `validateWith`: validation by a schema that was built once.
* `Request`: one of these ways with its values and its schema.
-/
import ArgSchema.Outcome

namespace ArgSchema

/-- Checks fields whose values are found by `value`. -/
def checkFields (mode : Mode) (values : Value) (fields : Entries)
    (value : Value → Except Fault Value) : Traced Outcome := do
  let keys ← Value.failingKeys value fields
  Value.report mode keys
  pure ⟨keys, values, fields, false⟩

/-- Validates a mapping: the keys that the schema declares are checked, others are not. -/
def validateNamed (values schema : Value) : Traced Outcome :=
  match values.entries? with
  | none => pure (.structuralError Outcome.missingNamed)
  | some vs => do
    let fields ← Traced.lift schema.toFields
    if fields.isEmpty then pure (.structuralError Outcome.missingSpec)
    else checkFields .named values fields (Value.valueAt vs)

/-- Whether a value is a schema that addresses its fields by name. -/
def isNamedSchema : Value → Bool
  | .schema _ raw _ => !raw.isPositionalSpelling
  | _ => false

/-- Validates an ordered sequence: positions past its end hold nothing. -/
def validatePositional (values schema : Value) : Traced Outcome :=
  match values.sequence? with
  | none => pure (.structuralError Outcome.missingPositional)
  | some xs =>
    if isNamedSchema schema then pure (.structuralError Outcome.missingSpec)
    else do
      let fields ← Traced.lift schema.toFields
      if fields.isEmpty then pure (.structuralError Outcome.missingSpec)
      else checkFields .positional values fields xs.get

/-- Validates by name; the schema may use any shorthand. -/
def named (values schema : Value) : Traced Outcome := do
  let fields ← Traced.lift schema.toFields
  validateNamed values (.ofEntries fields)

/-- The positional schema that arguments spell: a single list, tuple or schema is the
schema itself, otherwise the arguments are its fields. -/
def spreadSchema : List Value → Value
  | [.schema id raw fields] => .schema id raw fields
  | [x] => if x.listItems?.isSome then x else .ofList [x]
  | args => .ofList args

/-- Validates by position; the fields are given one by one or as one list. -/
def positional (values : Value) (args : List Value) : Traced Outcome :=
  validatePositional values (spreadSchema args)

/-- Validates in the mode of a schema that was built once. -/
def validateWith (schema values : Value) : Traced Outcome :=
  if isNamedSchema schema then validateNamed values schema else validatePositional values schema

/-- Validates in the mode that the shape of the schema asks for: a list, a tuple or a type
name is positional, anything else is named. -/
def validate (values schema : Value) : Traced Outcome :=
  match schema with
  | .schema .. => validateWith schema values
  | s => match s.text? with
    | some "" => pure (.structuralError Outcome.missingSpec)
    | some _ => validatePositional values (.ofList [s])
    | none =>
      if s.listItems?.isSome then validatePositional values s else validateNamed values s

/-- The warning that goes with `validateObject`. -/
def objectWarning : String := "validate_object() is deprecated, use named() instead"

/-- The old name of `named`. -/
def validateObject (values schema : Value) : Traced Outcome := named values schema

/-- A way to validate, with its values and its schema. -/
inductive Request where
  | freely (values schema : Value)
  | named (values schema : Value)
  | namedStrictly (values schema : Value)
  | namedObject (values schema : Value)
  | positional (values : Value) (args : List Value)
  | positionalStrictly (values schema : Value)
  | bySchema (schema values : Value)
  deriving Repr

/-- The outcome of a request. -/
def Request.run : Request → Traced Outcome
  | .freely values schema => validate values schema
  | .named values schema => ArgSchema.named values schema
  | .namedStrictly values schema => validateNamed values schema
  | .namedObject values schema => validateObject values schema
  | .positional values args => ArgSchema.positional values args
  | .positionalStrictly values schema => validatePositional values schema
  | .bySchema schema values => validateWith schema values

end ArgSchema
