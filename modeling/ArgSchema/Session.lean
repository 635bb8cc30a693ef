/-
# Sessions

Named values, schemas and outcomes that live on while the objects in them change. An
object can be held in many places; changing it changes it in all of them. An outcome
holds the values it was given, not a copy, so its values change with them, while its
failed keys and its fields stay what they were.

Key definitions:
* `Session`, `Session.find?`, `Session.assign`: what the names stand for.
* `Session.edit`: a change of one object, seen under every name.
* `Step`, `Answer`, `Session.step`, `Session.run`: what can be done in a session.
-/
import ArgSchema.Value.Edit
import ArgSchema.Schema

namespace ArgSchema

/-- What a name stands for. A schema is a value. -/
inductive Binding where
  | value (v : Value)
  | outcome (o : Outcome)
  deriving Repr

/-- What the names of a session stand for, the latest first. -/
structure Session where
  bindings : List (String × Binding)
  deriving Repr

/-- One step of a session. New objects are given their identities. -/
inductive Step where
  /-- Names a value. -/
  | assign (name : String) (v : Value)
  /-- Builds a schema, of a copy of the mapping that `raw` gives if the copy is given an
  identity. -/
  | build (name : String) (id : Nat) (raw : Value) (copy : Option Nat)
  /-- Names the normal form of a schema. -/
  | normalize (name : String) (id : Nat) (schema : Value)
  /-- Validates, and names the outcome if there is a name. -/
  | validate (name : Option String) (request : Request)
  /-- Changes the object that a path of keys leads to. A list that comes into being on the
  way gets the identity `id`. -/
  | edit (name : String) (id : Nat) (path : List Value) (edit : Edit)
  deriving Repr

/-- What a step answers. -/
inductive Answer where
  | done
  | value (v : Value)
  | outcome (o : Outcome) (log : List Record)
  | fault (f : Fault)
  deriving Repr

namespace Outcome

/-- An outcome after the object `id` in it has become `new`. -/
def write (id : Nat) (new : Value) (o : Outcome) : Outcome :=
  { failedKeys := Value.writeItems id new o.failedKeys
    values := Value.write id new o.values
    fields := Value.writeEntries id new o.fields
    structural := o.structural }

/-- How an outcome refuses a change. -/
def refusal (edit : Edit) : Fault :=
  edit.refused true .unsupportedOutcome fun _ => .missingOutcomePart "append"

end Outcome

namespace Binding

/-- What a name stands for after the object `id` in it has become `new`. -/
def write (id : Nat) (new : Value) : Binding → Binding
  | .value v => .value (Value.write id new v)
  | .outcome o => .outcome (o.write id new)

/-- The identity of the object that a change at the end of a path makes different, and what
the object becomes. -/
def edited (id : Nat) (path : List Value) (edit : Edit) : Binding → Except Fault (Nat × Value)
  | .value v => edit.applyAt id path v
  | .outcome _ =>
    match path with
    | [] => .error (Outcome.refusal edit)
    | _ :: _ => .error (.unsupportedOutcome "is not subscriptable")

end Binding

namespace Session

def empty : Session := ⟨[]⟩

/-- What a name stands for. -/
def find? (s : Session) (name : String) : Option Binding := s.bindings.lookup name

/-- What a name stands for, or the fault of a name that stands for nothing. -/
def binding (s : Session) (name : String) : Except Fault Binding :=
  match s.find? name with
  | some b => .ok b
  | none => .error (.missingKey (.ofText name))

/-- The value of a name, if it stands for one. -/
def value? (s : Session) (name : String) : Option Value :=
  match s.find? name with
  | some (.value v) => some v
  | _ => none

/-- Lets a name stand for something else. -/
def assign (s : Session) (name : String) (b : Binding) : Session := ⟨(name, b) :: s.bindings⟩

/-- Every name after the object `id` has become `new`. -/
def write (s : Session) (id : Nat) (new : Value) : Session :=
  ⟨s.bindings.map fun b => (b.1, b.2.write id new)⟩

/-- Changes the object that a path leads to from a name, under every name that holds it. -/
def edit (s : Session) (name : String) (id : Nat) (path : List Value) (edit : Edit) :
    Except Fault Session := do
  let (object, new) ← (← s.binding name).edited id path edit
  .ok (s.write object new)

/-- The schema that a step builds, as a value. -/
def builtSchema (room id : Nat) (raw : Value) (copy : Option Nat) : Except Fault Value := do
  let schema ← match copy with
    | some copyId => Schema.ofMapping room copyId raw
    | none => Schema.build raw none
  .ok (schema.toValue id)

/-- Names a value that may have failed to be made. -/
def assignResult (s : Session) (name : String) (r : Except Fault Value) : Session × Answer :=
  match r with
  | .ok v => (s.assign name (.value v), .value v)
  | .error f => (s, .fault f)

/-- The session after a step, and what the step answers; a step that fails changes nothing. -/
def step (room : Nat) (s : Session) : Step → Session × Answer
  | .assign name v => s.assignResult name (.ok v)
  | .build name id raw copy => s.assignResult name (builtSchema room id raw copy)
  | .normalize name id schema =>
    s.assignResult name (do .ok (.mapping .dict id (← schema.toFields)))
  | .validate name request =>
    let t := request.run
    match t.result with
    | .ok o => (match name with
      | some name => s.assign name (.outcome o)
      | none => s, .outcome o t.log)
    | .error f => (s, .fault f)
  | .edit name id path e =>
    match s.edit name id path e with
    | .ok s' => (s', .done)
    | .error f => (s, .fault f)

/-- The session after several steps. -/
def run (room : Nat) (s : Session) (steps : List Step) : Session := steps.foldl (fun s st => (s.step room st).1) s

end Session
end ArgSchema
