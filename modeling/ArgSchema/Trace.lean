/-
# Traced computations

A computation that writes records while it runs and may stop with a fault. What was
written before a fault stays written.

Key definitions:
* `Record`: what is written: a failed check, or the loading of a schema.
* `Traced`: the records of a computation and its result.
-/
import ArgSchema.Fault

namespace ArgSchema

/-- How values are addressed: by name or by position. -/
inductive Mode where
  | named | positional
  deriving DecidableEq, Repr

def Mode.name : Mode → String
  | .named => "named"
  | .positional => "positional"

/-- One record of a trace. -/
inductive Record where
  /-- A check of these fields failed at these keys. -/
  | failed (mode : Mode) (keys : List Value)
  /-- A schema is read from this path. -/
  | loading (path : String)
  deriving Repr

/-- The records of a computation, in order, and its result. -/
structure Traced (α : Type) where
  log : List Record
  result : Except Fault α

namespace Traced

variable {α β : Type}

/-- No records. -/
def lift (r : Except Fault α) : Traced α := ⟨[], r⟩

def pure (a : α) : Traced α := ⟨[], .ok a⟩

/-- Writes one record. -/
def write (r : Record) : Traced Unit := ⟨[r], .ok ()⟩

/-- The first computation and, unless it stops, the second one on its result. -/
def bind (x : Traced α) (f : α → Traced β) : Traced β :=
  match x.result with
  | .ok a => let y := f a; ⟨x.log ++ y.log, y.result⟩
  | .error e => ⟨x.log, .error e⟩

instance : Monad Traced where
  pure := Traced.pure
  bind := Traced.bind

end Traced
end ArgSchema
