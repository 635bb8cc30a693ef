/-
# Schemas built once

A schema that is normalized when it is built and then used for many validations. It
keeps the value it was built from, which decides whether it is positional, and the
path it was read from.

Key definitions:
* `Schema.build`: the schema of a mapping, a list, a tuple or a bare type name.
* `Schema.ofMapping`: the schema of a copy of a mapping.
* `Schema.toValue`: the schema as a value, for use inside other schemas.
-/
import ArgSchema.Validate

namespace ArgSchema

/-- A schema that is normalized once. -/
structure Schema where
  raw : Value
  fields : Entries
  path : Option String
  deriving Repr

namespace Schema

/-- The schema that `raw` describes: a bare type name is a list of one. -/
def build (raw : Value) (path : Option String) : Except Fault Schema := do
  let spelled := if raw.text?.isSome then .ofList [raw] else raw
  .ok ⟨raw, ← spelled.toFields, path⟩

/-- The schema of a copy of the mapping that `data` gives; `id` is the copy's identity. -/
def ofMapping (room id : Nat) (data : Value) : Except Fault Schema := do
  build (.mapping .dict id (← data.toEntries room)) none

/-- The schema as a value. -/
def toValue (id : Nat) (s : Schema) : Value := .schema id s.raw s.fields

/-- The number of fields. -/
def size (s : Schema) : Nat := s.fields.length

def isPositional (s : Schema) : Bool := s.raw.isPositionalSpelling

def shown (s : Schema) : String := Value.schemaText s.raw s.fields.length

/-- Validates in the schema's own mode. -/
def validate (s : Schema) (values : Value) : Traced Outcome := validateWith (s.toValue 0) values

end Schema
end ArgSchema
