/-
# Keys

Two values are the same key when they are equal and can be looked up. The key of a
value is written down in prefix order, so that "the same key" is equality of two
lists: numbers by what they are worth, texts by their characters, tuples by their
parts, sets by their members in a fixed order, other objects by identity.

Key definitions:
* `Value.key`: the key of a value, or the fault of a value that can change.
* `Value.lookup?`, `Entries.insert`: reading and writing a mapping.
* `Entries.ofPairs`: a mapping from pairs, later values in the earlier places.
-/
import ArgSchema.Fault

namespace ArgSchema

/-- A step of a key in prefix order; `tuple`, `set` and the parts of specs say how many
keys follow. -/
inductive KeyToken where
  | null
  | number (q : Rat)
  | infinite (negative : Bool)
  | complex
  | text (s : String)
  | bytes (data : List Nat)
  | tuple (size : Nat)
  | set (size : Nat)
  | range (parts : List Int)
  | date (d : Date)
  | moment (d : Date) (c : Clock)
  | instant (microseconds : Int)
  | clock (c : Clock)
  | clockInstant (microseconds : Int)
  | duration (d : Duration)
  | pattern (s : String)
  | color (c : Color)
  | cls (c : Class)
  | function (f : Function)
  | typeAlias (a : TypeAlias)
  | object (id : Nat)
  | typeName
  | nested (size : Nat)
  | instanceOf
  | unsatisfiable (shown : String)
  | fieldSpec
  deriving DecidableEq, Repr

abbrev Key := List KeyToken

namespace KeyToken

/-- The place of a step in the order that the members of a set are listed in. -/
def rank : KeyToken → List Int
  | .null => [0]
  | .number q => [1, q.num, q.den]
  | .infinite negative => [2, if negative then 1 else 0]
  | .complex => [3]
  | .text s => 4 :: s.length :: s.toList.map fun c => (c.toNat : Int)
  | .bytes data => 5 :: data.length :: data.map fun (b : Nat) => (b : Int)
  | .tuple n => [6, n]
  | .set n => [7, n]
  | .range parts => 8 :: parts
  | .date d => [9, d.ordinal]
  | .moment d c => [10, d.ordinal, c.seconds, c.microsecond]
  | .instant n => [11, n]
  | .clock c => [12, c.seconds, c.microsecond]
  | .duration d => [13, d.microseconds]
  | .pattern s => 14 :: s.length :: s.toList.map fun c => (c.toNat : Int)
  | .color c => [15, c.number]
  | .cls c => 16 :: c.name.toList.map fun c => (c.toNat : Int)
  | .function f => 17 :: f.shown.toList.map fun c => (c.toNat : Int)
  | .typeAlias a => 18 :: a.text.toList.map fun c => (c.toNat : Int)
  | .object id => [19, id]
  | .typeName => [20]
  | .nested n => [21, n]
  | .instanceOf => [22]
  | .unsatisfiable s => 23 :: s.length :: s.toList.map fun c => (c.toNat : Int)
  | .fieldSpec => [24]
  | .clockInstant n => [25, n]

end KeyToken

/-- Puts a key in its place among keys in order; one that is there already is left out. -/
def insertKey (k : Key) : List Key → List Key
  | [] => [k]
  | other :: rest =>
    if k = other then other :: rest
    else if decide (k.flatMap KeyToken.rank < other.flatMap KeyToken.rank) then k :: other :: rest
    else other :: insertKey k rest

/-- The key of a double: equal numbers have equal keys, and a NaN is only itself. -/
def Double.key (x : Double) : Key :=
  match x with
  | .nan id => [.object id]
  | .infinite negative => [.infinite negative]
  | x => match x.toRat? with
    | some q => [.number q]
    | none => []

def Decimal.key (d : Decimal) : Key :=
  match d with
  | .nan _ _ id => [.object id]
  | .infinite negative => [.infinite negative]
  | d => match d.toRat? with
    | some q => [.number q]
    | none => []

/-- Ranges are equal when they run through the same numbers. -/
def rangeKey (start stop step : Int) : List Int :=
  match Value.rangeLength start stop step with
  | 0 => [0]
  | 1 => [1, start]
  | n + 2 => [((n + 2 : Nat) : Int), start, step]

/-- What an atom is equal to. Bytes that can change have an equal among constant ones. -/
def Atom.key : Atom → Key
  | .null => [.null]
  | .bool b => [.number (if b then 1 else 0)]
  | .int _ n => [.number n]
  | .float _ x => x.key
  | .fraction q => [.number q]
  | .decimal d => d.key
  | .complex re im => if im.isZero then re.key else .complex :: (re.key ++ im.key)
  | .text _ s => [.text s]
  | .bytes _ data => [.bytes data]
  | .range start stop step => [.range (rangeKey start stop step)]
  | .date d => [.date d]
  | .moment m => match m.offset with
    | none => [.moment m.date m.clock]
    | some n => [.instant (m.instant n)]
  | .time t => match t.offset with
    | none => [.clock t.clock]
    | some d => [.clockInstant ((t.clock.microseconds : Int) - d.microseconds)]
  | .duration d => [.duration d]
  | .pattern s => [.pattern s]
  | .color c => [.color c]
  | .object _ id => [.object id]
  | .sized id _ => [.object id]
  | .function f => [.function f]
  | .cls c => [.cls c]
  | .typeAlias a => [.typeAlias a]

namespace Value

mutual
/-- The key of a value. Values that can change have none. -/
def key : Value → Except Fault Key
  | .atom (.bytes (.mutable _) _) => .error (.unhashable .bytearray)
  | .atom a => .ok a.key
  | .collection kind id items =>
    match kind with
    | .tuple | .tupleSub | .point => do
      let ks ← keys items
      .ok (.tuple items.length :: ks.flatten)
    | .frozenset => do
      let ks ← keys items
      let members := ks.foldr insertKey []
      .ok (.set members.length :: members.flatten)
    | .pair | .generator | .element _ => .ok [.object id]
    | .list | .listSub | .deque | .userList | .set => .error (.unhashable kind.classOf)
  | .mapping kind _ _ => .error (.unhashable kind.classOf)
  | .exception _ id _ _ => .ok [.object id]
  | .typeName name => do .ok (.typeName :: (← name.key))
  | .nested fields => do .ok (.nested fields.length :: (← entryKeys fields))
  | .instanceOf c => do .ok (.instanceOf :: (← c.key))
  | .unsatisfiable raw => .ok [.unsatisfiable raw.shown]
  | .fieldSpec isa optional => do
    let k ← isa.key
    .ok (.fieldSpec :: (k ++ (← optional.key)))
  | .schema id _ _ => .ok [.object id]

def keys : List Value → Except Fault (List Key)
  | [] => .ok []
  | x :: rest => do
    let k ← x.key
    .ok (k :: (← keys rest))

def entryKeys : List (Value × Value) → Except Fault Key
  | [] => .ok []
  | (k, v) :: rest => do
    let key ← k.key
    let value ← v.key
    .ok (.tuple 2 :: (key ++ value) ++ (← entryKeys rest))
end

/-- Whether a value can be looked up under `k`. -/
def hasKey (v : Value) (k : Key) : Bool :=
  match v.key with
  | .ok k' => k' == k
  | .error _ => false

end Value

namespace Entries

/-- The value under the key `k`. -/
def find? (k : Key) : Entries → Option Value
  | [] => none
  | (x, v) :: rest => if x.hasKey k then some v else find? k rest

/-- The value under the text `name`. -/
def field? (name : String) (es : Entries) : Option Value := find? [.text name] es

/-- Writes `v` under the key `k`: an entry that is there keeps its key and its place. -/
def insert (k : Key) (x v : Value) : Entries → Entries
  | [] => [(x, v)]
  | (x', v') :: rest => if x'.hasKey k then (x', v) :: rest else (x', v') :: insert k x v rest

/-- Leaves out the entry under the key `k`. -/
def erase (k : Key) : Entries → Entries
  | [] => []
  | (x, v) :: rest => if x.hasKey k then rest else (x, v) :: erase k rest

/-- Writes one entry after another. -/
def insertAll (es : Entries) : Entries → Except Fault Entries
  | [] => .ok es
  | (x, v) :: rest => do
    let k ← x.key
    insertAll (insert k x v es) rest

/-- A mapping from pairs: later values replace earlier ones under the same key. -/
def ofPairs (pairs : Entries) : Except Fault Entries := insertAll [] pairs

end Entries

namespace Value

/-- The value that a mapping holds under `key`, if any; a key that can change is a fault. -/
def lookup? (es : Entries) (key : Value) : Except Fault (Option Value) := do
  let k ← key.key
  .ok (Entries.find? k es)

end Value
end ArgSchema
