/-
# Guarded functions

A guard checks the arguments of a function by name on every call and lets the body run
only if they are valid. A coroutine function is guarded when it is waited for, not when
it is called.

Key definitions:
* `Callable`: a function with its signature and its body.
* `guardFields`: the fields that a guard checks, from a schema and from keywords.
* `checkCall`: the check of one call.
* `guard`: the guarded function; it keeps name, documentation and signature.
* `Callable.start`: what a call gives at once.
-/
import ArgSchema.Signature
import ArgSchema.Validate

namespace ArgSchema

/-- A function; its body is given the call as it was made. -/
structure Callable (β : Type) where
  name : String
  doc : String
  signature : Signature
  coroutine : Bool
  body : Call → Traced β

/-- What a call gives at once: the result, or a computation that runs once it is waited
for. -/
inductive Started (β : Type) where
  | finished (result : Traced β)
  | waiting (result : Traced β)

namespace Callable

variable {β : Type}

/-- What a call gives at once. -/
def start (f : Callable β) (call : Call) : Started β :=
  if f.coroutine then .waiting (f.body call) else .finished (f.body call)

end Callable

/-- The fields of the schema of a guard, which may be left out or null. -/
def baseFields (schema? : Option Value) : Except Fault Entries :=
  match schema? with
  | none => .ok []
  | some s => if s.isNull then .ok [] else s.toFields

/-- Takes the keyword "schema", which stands for the schema itself, out of the keywords;
the schema must not be given in both ways. -/
def takeSchema (schema? : Option Value) (keywords : Arguments) :
    Except Fault (Option Value × Arguments) :=
  match keywords.lookup "schema", schema? with
  | none, _ => .ok (schema?, keywords)
  | some s, none => .ok (some s, keywords.without "schema")
  | some _, some _ => .error (.repeatedArgument "schema")

/-- The fields that a guard checks: those of the schema, then those of the keywords, which
win where both declare a field. -/
def guardFields (schema? : Option Value) (keywords : Arguments) : Except Fault Entries := do
  let (schema?, keywords) ← takeSchema schema? keywords
  let base ← baseFields schema?
  Entries.insertAll base (← keywords.toValue.toFields)

/-- The arguments of a call that fits the signature, valid or not. -/
def boundArguments (s : Signature) (call : Call) : Except Fault Arguments :=
  match s.bind call with
  | .ok arguments => .ok arguments
  | .error fault => .error (.binding fault)

/-- Checks the arguments of a call, defaults included, by name. -/
def checkCall (s : Signature) (fields : Entries) (call : Call) : Traced Unit := do
  let arguments ← Traced.lift (boundArguments s call)
  let outcome ← validateNamed arguments.toValue (.ofEntries fields)
  Traced.lift outcome.check

variable {β : Type}

/-- The function that checks every call against `fields` before its body runs. -/
def guardWith (fields : Entries) (f : Callable β) : Callable β :=
  { f with body := fun call => do
      checkCall f.signature fields call
      f.body call }

/-- The function that is guarded by a schema and by keywords. -/
def guard (schema? : Option Value) (keywords : Arguments) (f : Callable β) :
    Except Fault (Callable β) := do
  .ok (guardWith (← guardFields schema? keywords) f)

end ArgSchema
