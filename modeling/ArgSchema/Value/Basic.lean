/-
# Values

The values that can be checked and the values a schema is written in: they are
the same ones, since a schema is data and may hold ready-made specs.

A value that can change, or that equals nothing but itself, carries the identity
of its object; the identity counts when objects are compared or changed and says
nothing about the contents.

Key definitions:
* `Atom`: values without parts that are values.
* `Value`: atoms, collections, mappings, exceptions, specs and schemas.
* `Value.classOf`, `Value.isA`: the class of a value and the classes it belongs to.
* `Value.entries?`, `Value.sequence?`: how it counts as a mapping and as an
  ordered sequence.
-/
import ArgSchema.Number.Double
import ArgSchema.Number.Decimal
import ArgSchema.Calendar
import ArgSchema.Class

namespace ArgSchema

/-- The integers proper, those of a subclass, and the members of `Level`. -/
inductive IntKind where
  | plain | subclass | level
  deriving DecidableEq, Repr

/-- Text proper, text of a subclass, and an object that wraps text. -/
inductive TextKind where
  | plain | subclass | wrapper
  deriving DecidableEq, Repr

/-- Constant bytes, bytes that can change, and a read-only view of bytes. -/
inductive BytesKind where
  | constant
  | mutable (id : Nat)
  | view
  deriving DecidableEq, Repr

/-- The members of `Color`. -/
inductive Color where
  | red | blue
  deriving DecidableEq, Repr

/-- What can be called without being a class. -/
inductive Function where
  | builtin (name : String)
  | lambda (id : Nat)
  | bound (name : String)
  | partialCall (id : Nat)
  deriving DecidableEq, Repr

/-- Types that are written with parameters or alternatives; they are not classes. -/
inductive TypeAlias where
  | listOfInt | dictOfStrInt | intOrStr
  deriving DecidableEq, Repr

/-- A value that holds no other value. -/
inductive Atom where
  | null
  | bool (b : Bool)
  | int (kind : IntKind) (n : Int)
  | float (subclass : Bool) (x : Double)
  | fraction (q : Rat)
  | decimal (d : Decimal)
  | complex (re im : Double)
  | text (kind : TextKind) (s : String)
  | bytes (kind : BytesKind) (data : List Nat)
  | range (start stop step : Int)
  | date (d : Date)
  | moment (m : Moment)
  | time (t : TimeOfDay)
  | duration (d : Duration)
  | pattern (s : String)
  | color (c : Color)
  | object (cls : Class) (id : Nat)
  | sized (id : Nat) (n : Int)
  | function (f : Function)
  | cls (c : Class)
  | typeAlias (a : TypeAlias)
  deriving DecidableEq, Repr

/-- The kinds of values that hold items. A document element holds its children. -/
inductive CollectionKind where
  | list | listSub | tuple | tupleSub | point | deque | userList | pair | set | frozenset
  | generator
  | element (tag : String)
  deriving DecidableEq, Repr

/-- The kinds of mappings. -/
inductive MappingKind where
  | dict | dictSub | ordered | default | proxy | wrapper | chain
  deriving DecidableEq, Repr

/-- A value. The last six kinds are the parts that schemas are made of once they are
normalized; written by hand they may hold anything. A schema keeps the value it was
built from and the fields that it had then. An exception of the system keeps the files
that it is about beside its arguments. -/
inductive Value where
  | atom (a : Atom)
  | collection (kind : CollectionKind) (id : Nat) (items : List Value)
  | mapping (kind : MappingKind) (id : Nat) (entries : List (Value × Value))
  | exception (cls : Class) (id : Nat) (args files : List Value)
  | typeName (name : Value)
  | nested (fields : List (Value × Value))
  | instanceOf (cls : Value)
  | unsatisfiable (raw : Value)
  | fieldSpec (isa optional : Value)
  | schema (id : Nat) (raw : Value) (fields : List (Value × Value))
  deriving Repr

/-- Keys with values, in order. -/
abbrev Entries := List (Value × Value)

/-- An ordered sequence: its items, or the numbers of a range, which are not counted out. -/
inductive Sequence where
  | items (xs : List Value)
  | range (start stop step : Int)
  deriving Repr

namespace Value

def null : Value := .atom .null
def ofBool (b : Bool) : Value := .atom (.bool b)
def ofInt (n : Int) : Value := .atom (.int .plain n)
def ofText (s : String) : Value := .atom (.text .plain s)
def ofDouble (x : Double) : Value := .atom (.float false x)
def ofList (items : List Value) : Value := .collection .list 0 items
def ofTuple (items : List Value) : Value := .collection .tuple 0 items
def ofEntries (entries : Entries) : Value := .mapping .dict 0 entries

instance : Inhabited Value := ⟨null⟩

def isNull : Value → Bool
  | .atom .null => true
  | _ => false

/-- The text of a value that is text; an object that wraps text is not. -/
def text? : Value → Option String
  | .atom (.text .plain s) | .atom (.text .subclass s) => some s
  | _ => none

/-- The integer of a value that is one: booleans and enumeration members count. -/
def int? : Value → Option Int
  | .atom (.bool b) => some (if b then 1 else 0)
  | .atom (.int _ n) => some n
  | _ => none

/-- The class of a value that is a class. -/
def class? : Value → Option Class
  | .atom (.cls c) => some c
  | _ => none

end Value

/-! ### Classes of values -/

def IntKind.classOf : IntKind → Class
  | .plain => .int
  | .subclass => .intSub
  | .level => .level

def TextKind.classOf : TextKind → Class
  | .plain => .str
  | .subclass => .strSub
  | .wrapper => .userString

def BytesKind.classOf : BytesKind → Class
  | .constant => .bytes
  | .mutable _ => .bytearray
  | .view => .memoryview

def Function.classOf : Function → Class
  | .builtin _ => .builtinFunction
  | .lambda _ => .function
  | .bound _ => .method
  | .partialCall _ => .partialCall

def TypeAlias.classOf : TypeAlias → Class
  | .intOrStr => .unionType
  | _ => .genericAlias

def Atom.classOf : Atom → Class
  | .null => .noneType
  | .bool _ => .bool
  | .int kind _ => kind.classOf
  | .float subclass _ => if subclass then .floatSub else .float
  | .fraction _ => .fraction
  | .decimal _ => .decimal
  | .complex .. => .complex
  | .text kind _ => kind.classOf
  | .bytes kind _ => kind.classOf
  | .range .. => .range
  | .date _ => .date
  | .moment _ => .datetime
  | .time _ => .time
  | .duration _ => .timedelta
  | .pattern _ => .pattern
  | .color _ => .color
  | .object c _ => c
  | .sized .. => .sizedOnly
  | .function f => f.classOf
  | .cls c => c.metaclass
  | .typeAlias a => a.classOf

def CollectionKind.classOf : CollectionKind → Class
  | .list => .list
  | .listSub => .listSub
  | .tuple => .tuple
  | .tupleSub => .tupleSub
  | .point => .point
  | .deque => .deque
  | .userList => .userList
  | .pair => .pair
  | .set => .set
  | .frozenset => .frozenset
  | .generator => .generator
  | .element _ => .element

def MappingKind.classOf : MappingKind → Class
  | .dict => .dict
  | .dictSub => .dictSub
  | .ordered => .orderedDict
  | .default => .defaultDict
  | .proxy => .mappingProxy
  | .wrapper => .userDict
  | .chain => .chainMap

/-- Lists and tuples, with their subclasses: the sequences that can be written as a
positional schema. -/
def CollectionKind.isListOrTuple : CollectionKind → Bool
  | .list | .listSub | .tuple | .tupleSub | .point => true
  | _ => false

namespace Value

def classOf : Value → Class
  | .atom a => a.classOf
  | .collection kind _ _ => kind.classOf
  | .mapping kind _ _ => kind.classOf
  | .exception c _ _ _ => c
  | .typeName _ => .typeName
  | .nested _ => .nestedSchema
  | .instanceOf _ => .instanceOf
  | .unsatisfiable _ => .unsatisfiable
  | .fieldSpec .. => .fieldSpec
  | .schema .. => .schema

/-- Whether a value belongs to a class. -/
def isA (v : Value) (c : Class) : Bool := v.classOf.isSubclass c

/-! ### Lists and tuples, mappings, ordered sequences -/

/-- The items of a list or tuple. -/
def listItems? : Value → Option (List Value)
  | .collection kind _ items => if kind.isListOrTuple then some items else none
  | _ => none

/-- The entries of a mapping. -/
def entries? : Value → Option Entries
  | .mapping _ _ entries => some entries
  | _ => none

/-- How many numbers a range has. -/
def rangeLength (start stop step : Int) : Nat :=
  if 0 < step then ((stop - start + step - 1) / step).toNat
  else if step < 0 then ((start - stop - step - 1) / -step).toNat
  else 0

/-- The numbers of a range. -/
def rangeItems (start stop step : Int) : List Value :=
  (List.range (rangeLength start stop step)).map fun (i : Nat) => ofInt (start + step * i)

/-- The characters of a text, as texts; those of an object that wraps text are wrapped. -/
def characters (kind : TextKind) (s : String) : List Value :=
  let single : TextKind := if kind = .wrapper then .wrapper else .plain
  s.toList.map fun c => .atom (.text single (String.singleton c))

/-- Bytes as numbers. -/
def byteNumbers (data : List Nat) : List Value := data.map fun (b : Nat) => ofInt b

/-- An ordered sequence other than text and bytes: these are the values that can be given
by position. -/
def sequence? : Value → Option Sequence
  | .collection kind _ items =>
    match kind with
    | .set | .frozenset | .generator | .element _ => none
    | _ => some (.items items)
  | .atom (.range start stop step) => some (.range start stop step)
  | .atom (.bytes .view data) => some (.items (byteNumbers data))
  | .atom (.text .wrapper s) => some (.items (characters .wrapper s))
  | _ => none

end Value
end ArgSchema
