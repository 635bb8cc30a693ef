/-
# Outcomes of validations

An outcome holds the keys that failed, the values as they were given and the fields
they were checked against. A structural outcome is about values that never reached a
field; its only key is the message.

Key definitions:
* `Outcome`: the outcome of one validation.
* `Outcome.get`, `Outcome.valueList`: the values that were validated.
* `Outcome.truth`: an outcome where a truth value is asked for.
* `Outcome.errorString`: one clause for each failed key.
* `Outcome.check`: the fault of an outcome that is not valid.
-/
import ArgSchema.Check
import ArgSchema.Spec.Description

namespace ArgSchema

/-- The outcome of one validation. -/
structure Outcome where
  failedKeys : List Value
  values : Value
  fields : Entries
  structural : Bool
  deriving Repr

namespace Outcome

def missingSpec : String := "missing validation spec"
def missingNamed : String := "missing named arguments"
def missingPositional : String := "missing positional arguments"

/-- The outcome of values that never reach a field. -/
def structuralError (message : String) : Outcome := ⟨[.ofText message], .null, [], true⟩

/-- An outcome from its parts as they are given: the keys are the items of a value, the
fields the mapping of another one, or none if that one is false. -/
def make (room : Nat) (failedKeys values schema : Value) (structural : Bool) : Except Fault Outcome := do
  let keys ← failedKeys.items room
  let fields ← if ← schema.truth then schema.toEntries room else .ok []
  .ok ⟨keys, values, fields, structural⟩

def isValid (o : Outcome) : Bool := o.failedKeys.isEmpty

/-- An outcome is true if it is valid, however many values it holds. -/
def truth (o : Outcome) : Bool := o.isValid

/-- The value that was validated under a key. -/
def get (o : Outcome) (key : Value) : Except Fault Value :=
  match o.values.entries? with
  | some vs => Value.valueAt vs key
  | none => match o.values.sequence? with
    | some xs => xs.get key
    | none => .ok .null

/-- Every value that was validated, listed in the room that there is. -/
def valueList (room : Nat) (o : Outcome) : Except Fault (List Value) :=
  match o.values.entries? with
  | some vs => .ok (vs.map Prod.snd)
  | none => match o.values.sequence? with
    | some xs => xs.toList room
    | none => .ok []

/-- Values are addressed by name if they are a mapping. -/
def mode (o : Outcome) : Mode := if o.values.entries?.isSome then .named else .positional

/-- What one failed key is reported as: its value is missing, or not what it should be. -/
def clause (mode : Mode) (v key spec : Value) : Except Fault String := do
  if ← v.isEmpty then
    .ok ("missing " ++ mode.name ++ " argument " ++ key.plain)
  else
    let d ← (← spec.constraint).describe
    .ok (mode.name ++ " argument " ++ key.plain ++ " is not a \"" ++ d.plain ++ "\"")

/-- The clause of one failed key. -/
def clauseFor (o : Outcome) (key : Value) : Except Fault String := do
  let v ← o.get key
  match ← Value.lookup? o.fields key with
  | some spec => clause o.mode v key spec
  | none => .error (.missingKey key)

/-- The summary of every failed key; a structural outcome gives its message. -/
def errorString (o : Outcome) : Except Fault Value :=
  if o.structural then
    match o.failedKeys with
    | [] => .error .noKeys
    | message :: _ => .ok message
  else do
    let clauses ← o.failedKeys.mapM o.clauseFor
    .ok (.ofText (joinWith ", " clauses))

/-- Passes a valid outcome; any other is a fault with its summary and its keys. -/
def check (o : Outcome) : Except Fault Unit :=
  if o.isValid then .ok ()
  else do
    let message ← o.errorString
    .error (.invalid message o.failedKeys)

/-- How an outcome shows itself. -/
def shown (o : Outcome) : String :=
  if o.isValid then "<ValidationResult: Valid>"
  else "<ValidationResult: " ++ toString o.failedKeys.length ++ " errors>"

end Outcome
end ArgSchema
