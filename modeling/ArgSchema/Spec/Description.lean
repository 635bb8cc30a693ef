/-
# Descriptions of constraints

The text by which messages name what a field should have been: the type name, the
name of the class, the nested fields between braces, or the unsupported value.

Key definitions:
* `Value.describe`: the description of a constraint; only constraints have one.
-/
import ArgSchema.Spec.Basic

namespace ArgSchema

/-- The name of a function, where it has one. -/
def Function.name? : Function → Option String
  | .builtin name | .bound name => some name
  | .lambda _ => some "<lambda>"
  | .partialCall _ => none

namespace Value

/-- The name of a value that has one: classes, functions, generators, types with
parameters. -/
def ownName (v : Value) : Except Fault String :=
  match v with
  | .atom (.cls c) => .ok c.name
  | .atom (.typeAlias .listOfInt) => .ok "list"
  | .atom (.typeAlias .dictOfStrInt) => .ok "dict"
  | .atom (.function f) => match f.name? with
    | some name => .ok name
    | none => .error (.missingPart v "__name__")
  | .collection .generator _ _ => .ok "<genexpr>"
  | v => .error (.missingPart v "__name__")

mutual
/-- The description of a constraint. A type name describes itself, whatever it is. -/
def describe : Value → Except Fault Value
  | .typeName name => .ok name
  | .instanceOf c => do .ok (ofText (← c.ownName))
  | .nested fields => do .ok (ofText (bracesText (← describeEntries fields)))
  | .unsatisfiable raw => .ok (ofText raw.shown)
  | .schema _ raw _ => .ok (ofText raw.shown)
  | v => .error (.missingPart v "raw")

/-- The descriptions of nested fields, each after its key. -/
def describeEntries : List (Value × Value) → Except Fault (List String)
  | [] => .ok []
  | (k, .fieldSpec isa _) :: rest => do
    let d ← describe isa
    .ok ((k.plain ++ ": " ++ d.plain) :: (← describeEntries rest))
  | (_, v) :: _ => .error (.missingPart v "isa")
end

/-- The constraint inside a field spec; nothing else has one. -/
def constraint (spec : Value) : Except Fault Value :=
  match spec with
  | .fieldSpec isa _ => .ok isa
  | v => .error (.missingPart v "isa")

end Value
end ArgSchema
