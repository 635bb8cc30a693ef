/-
# Exceptions as values

An exception keeps its arguments. Those of the system are told apart by number: an
exception of the general class that starts with a number and a message belongs to the
class of that number. Files that follow the message are kept apart from the arguments.

Key definitions:
* `Class.ofSystemNumber?`: the class of a number.
* `Value.ofException`, `Value.ofMessage`: an exception from its class and its arguments, or
  from a message.
-/
import ArgSchema.Value.Length

namespace ArgSchema

/-- The class of the failures that the system gives a number; other numbers have none. -/
def Class.ofSystemNumber? (n : Int) : Option Class :=
  match n with
  | 1 | 13 => some .permissionError
  | 2 => some .fileNotFoundError
  | 3 => some .processLookupError
  | 4 => some .interruptedError
  | 10 => some .childProcessError
  | 11 | 114 | 115 => some .blockingError
  | 17 => some .fileExistsError
  | 20 => some .notADirectoryError
  | 21 => some .isADirectoryError
  | 32 | 108 => some .brokenPipeError
  | 103 => some .connectionAbortedError
  | 104 => some .connectionResetError
  | 110 => some .timeoutError
  | 111 => some .connectionRefusedError
  | _ => none

namespace Value

/-- Whether a value can be asked for a number: numbers can, and so can wrapped text. -/
def givesNumber (v : Value) : Bool := v.isA .number || v.isA .userString

/-- Passes a count of characters, which is an integer of one machine word. -/
def checkCount (v : Value) : Except Fault Unit :=
  match v.int? with
  | none => .error (.notAnInteger v.classOf)
  | some n => if isHuge n then .error (.hugeCount v.classOf) else .ok ()

/-- An exception of the system with a number, a message and what follows them: a file, a
number that says nothing here, and a second file. A call that would block may say instead of
the file how many characters it wrote. -/
def systemException (c : Class) (id : Nat) (number message : Value) (rest : List Value) :
    Except Fault Value :=
  let c := if c = .osError then (number.int?.bind Class.ofSystemNumber?).getD c else c
  let whole := Value.exception c id (number :: message :: rest) []
  match rest with
  | [] => .ok whole
  | file :: others =>
    if file.isNull then .ok whole
    else if c = .blockingError && file.givesNumber then do
      file.checkCount
      .ok whole
    else
      .ok (.exception c id [number, message] (file :: (others.drop 1).filter fun f => !f.isNull))

/-- An exception from its class and its arguments. -/
def ofException (c : Class) (id : Nat) (args : List Value) : Except Fault Value :=
  match args with
  | number :: message :: rest =>
    if c.isSubclass .osError && rest.length ≤ 3 then systemException c id number message rest
    else if c.takesOneMessage then .error (.messageCount c args.length)
    else .ok (.exception c id args [])
  | [] => if c.takesOneMessage then .error (.messageCount c 0) else .ok (.exception c id [] [])
  | _ => .ok (.exception c id args [])

/-- An exception from its class and a message, with parts given by name. -/
def ofMessage (c : Class) (id : Nat) (message : Value) (keywords : List String) :
    Except Fault Value :=
  match keywords.find? fun name => !c.keywords.contains name with
  | some name => .error (.unknownKeyword c name)
  | none => ofException c id [message]

end Value
end ArgSchema
