/-
# Specs and their normal form

A schema maps names, or positions, to field specs. An author may write a spec in
full, as a mapping with the type under "isa" and an optional flag under "optional",
or use a shorthand: the type itself. A type is a name, a mapping of nested fields, a
schema or a class. Normalizing turns every spec into a `Value.fieldSpec` that
holds a constraint: a type name, nested fields, a class, or what is not understood.

Ready-made specs and constraints are kept as they are, whatever they hold.

Key definitions:
* `Value.toConstraint`: the constraint that a type stands for.
* `Value.toField`: the field spec that an entry of a schema stands for.
* `Value.toFields`: the normal form of a schema.
-/
import ArgSchema.NamedType
import ArgSchema.Value.Items

namespace ArgSchema
namespace Value

/-- The constraint of a type without parts: a text is a type name, a class is a class,
a constraint is itself, and anything else is never met. -/
def leafConstraint (t : Value) : Value :=
  match t with
  | .atom (.text .plain _) | .atom (.text .subclass _) => .typeName t
  | .atom (.cls _) => .instanceOf t
  | .typeName _ | .nested _ | .instanceOf _ | .unsatisfiable _ => t
  | _ => .unsatisfiable t

/-- The flag of a spec in full: the value under "optional", which is false if left out. -/
def optionalFlag (es : Entries) : Value := (Entries.field? "optional" es).getD (ofBool false)

mutual
/-- The constraint that a type stands for. -/
def toConstraint : Value → Except Fault Value
  | .mapping _ _ es => do .ok (.nested (← normalizeEntries es))
  | .schema _ _ fields => .ok (.nested fields)
  | t => .ok t.leafConstraint

/-- The field spec that an entry of a schema stands for. -/
def toField : Value → Except Fault Value
  | .fieldSpec isa optional => .ok (.fieldSpec isa optional)
  | .mapping _ _ es =>
    match constraintOfIsa es with
    | some constraint => do
      let isa ← constraint
      .ok (.fieldSpec isa (ofBool (← (optionalFlag es).truth)))
    | none => do .ok (.fieldSpec (.nested (← normalizeEntries es)) (ofBool false))
  | .schema _ _ fields => .ok (.fieldSpec (.nested fields) (ofBool false))
  | x => .ok (.fieldSpec x.leafConstraint (ofBool false))

/-- The constraint of the type under "isa", if there is one. -/
def constraintOfIsa : List (Value × Value) → Option (Except Fault Value)
  | [] => none
  | (k, t) :: rest =>
    if k.hasKey [.text "isa"] then some (toConstraint t) else constraintOfIsa rest

/-- The field specs of a mapping, under the same keys and in the same order. -/
def normalizeEntries : List (Value × Value) → Except Fault (List (Value × Value))
  | [] => .ok []
  | (k, x) :: rest => do
    let field ← toField x
    .ok ((k, field) :: (← normalizeEntries rest))
end

/-- The field specs of a sequence, under its positions from `i` on. -/
def normalizeItems (i : Nat) : List Value → Except Fault Entries
  | [] => .ok []
  | x :: rest => do
    let field ← toField x
    .ok ((ofInt i, field) :: (← normalizeItems (i + 1) rest))

/-- The normal form of a schema. What is neither a schema, a mapping, a list nor a tuple
has no fields. -/
def toFields (s : Value) : Except Fault Entries :=
  match s with
  | .schema _ _ fields => .ok fields
  | .mapping _ _ es => normalizeEntries es
  | .collection kind _ items => if kind.isListOrTuple then normalizeItems 0 items else .ok []
  | _ => .ok []

end Value
end ArgSchema
