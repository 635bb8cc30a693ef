/-
# The text of a value

Two texts: the one that shows a value with its kind and its parts, and the plain
one, in which text, dates and numbers stand for themselves.

Key definitions:
* `Value.shown`: the text that shows kind and parts.
* `Value.plain`: the plain text, used for keys in messages.
-/
import ArgSchema.Value.Basic
import ArgSchema.Text.Pattern

namespace ArgSchema

/-- The text of a part of a complex number: no point is added to a whole number. -/
def Double.bareText (x : Double) : String :=
  let s := x.text.toList
  if s.drop (s.length - 2) = ['.', '0'] then String.ofList (s.take (s.length - 2)) else String.ofList s

/-- A complex number: the imaginary part alone when the real part is a positive zero. -/
def complexText (re im : Double) : String :=
  let imaginary := im.bareText
  let signed := if imaginary.toList.head? = some '-' then imaginary else "+" ++ imaginary
  if re = Double.zero false then imaginary ++ "j" else "(" ++ re.bareText ++ signed ++ "j)"

def Color.name : Color → String
  | .red => "RED"
  | .blue => "BLUE"

def Color.number : Color → Nat
  | .red => 1
  | .blue => 2

/-- The name of a member of `Level`. -/
def levelName (n : Int) : String := if n = 0 then "ZERO" else if n = 1 then "LOW" else "HIGH"

def Function.shown : Function → String
  | .builtin name => "<built-in function " ++ name ++ ">"
  | .lambda _ => "<function <lambda>>"
  | .bound name => "<bound method " ++ name ++ ">"
  | .partialCall _ => "<partial>"

def TypeAlias.text : TypeAlias → String
  | .listOfInt => "list[int]"
  | .dictOfStrInt => "dict[str, int]"
  | .intOrStr => "int | str"

def Atom.shown : Atom → String
  | .null => "None"
  | .bool b => if b then "True" else "False"
  | .int .level n => "<Level." ++ levelName n ++ ": " ++ toString n ++ ">"
  | .int _ n => toString n
  | .float _ x => x.text
  | .fraction q => "Fraction(" ++ toString q.num ++ ", " ++ toString q.den ++ ")"
  | .decimal d => "Decimal('" ++ d.text ++ "')"
  | .complex re im => complexText re im
  | .text _ s => quoteText s
  | .bytes .constant data => quoteBytes data
  | .bytes (.mutable _) data => "bytearray(" ++ quoteMutableBytes data ++ ")"
  | .bytes .view _ => "<memory>"
  | .range start stop step =>
    "range(" ++ toString start ++ ", " ++ toString stop
      ++ (if step = 1 then "" else ", " ++ toString step) ++ ")"
  | .date d => d.shown
  | .moment m => m.shown
  | .time t => t.shown
  | .duration d => d.shown
  | .pattern s => patternText s
  | .color c => "<Color." ++ c.name ++ ": " ++ toString c.number ++ ">"
  | .object c _ => "<" ++ c.qualified ++ " object>"
  | .sized .. => "<" ++ Class.sizedOnly.qualified ++ " object>"
  | .function f => f.shown
  | .cls c => c.shown
  | .typeAlias a => a.text

def Atom.plain : Atom → String
  | .int .level n => toString n
  | .fraction q => if q.den = 1 then toString q.num else toString q.num ++ "/" ++ toString q.den
  | .decimal d => d.text
  | .text _ s => s
  | .date d => d.iso
  | .moment m => m.isoWith " "
  | .time t => t.iso
  | .duration d => d.text
  | .color c => "Color." ++ c.name
  | a => a.shown

/-- Items between parentheses; a single one is followed by a comma. -/
def tupleText : List String → String
  | [x] => "(" ++ x ++ ",)"
  | xs => "(" ++ joinWith ", " xs ++ ")"

def bracesText (xs : List String) : String := "\x7b" ++ joinWith ", " xs ++ "\x7d"

def bracketsText (xs : List String) : String := "[" ++ joinWith ", " xs ++ "]"

/-- The text of a collection whose items have the texts `xs`. -/
def CollectionKind.shownWith (xs : List String) : CollectionKind → String
  | .list | .listSub | .userList => bracketsText xs
  | .tuple | .tupleSub => tupleText xs
  | .point => "Point(" ++ joinWith ", " (List.zipWith (· ++ "=" ++ ·) ["x", "y"] xs) ++ ")"
  | .deque => "deque(" ++ bracketsText xs ++ ")"
  | .set => if xs.isEmpty then "set()" else bracesText xs
  | .frozenset => if xs.isEmpty then "frozenset()" else "frozenset(" ++ bracesText xs ++ ")"
  | .pair => "<" ++ Class.pair.qualified ++ " object>"
  | .generator => "<generator>"
  | .element tag => "<Element " ++ quoteText tag ++ ">"

/-- The text of a mapping whose keys and values have the texts `xs`. -/
def MappingKind.shownWith (xs : List (String × String)) : MappingKind → String
  | .ordered =>
    if xs.isEmpty then "OrderedDict()"
    else "OrderedDict([" ++ joinWith ", " (xs.map fun (k, v) => tupleText [k, v]) ++ "])"
  | kind =>
    let body := bracesText (xs.map fun (k, v) => k ++ ": " ++ v)
    match kind with
    | .proxy => "mappingproxy(" ++ body ++ ")"
    | .default => "defaultdict(" ++ Class.list.shown ++ ", " ++ body ++ ")"
    | .chain => "ChainMap(" ++ body ++ ")"
    | _ => body

namespace Value

/-- A schema is positional when it was written as a list, a tuple or a bare type name. -/
def isPositionalSpelling (raw : Value) : Bool := raw.listItems?.isSome || raw.text?.isSome

/-- The text of a schema: how many fields it has and how they are addressed. -/
def schemaText (raw : Value) (size : Nat) : String :=
  "<Schema: " ++ toString size ++ " fields (" ++
    (if raw.isPositionalSpelling then "positional" else "named") ++ ")>"

mutual
/-- The text that shows a value with its kind and its parts. -/
def shown : Value → String
  | .atom a => a.shown
  | .collection kind _ items => kind.shownWith (shownItems items)
  | .mapping kind _ entries => kind.shownWith (shownEntries entries)
  | .exception c _ args _ =>
    match shownItems args with
    | [x] => c.name ++ "(" ++ x ++ ")"
    | xs => c.name ++ tupleText xs
  | .typeName name => "TypeName(name=" ++ name.shown ++ ")"
  | .nested fields => "NestedSchema(fields=" ++ MappingKind.shownWith (shownEntries fields) .proxy ++ ")"
  | .instanceOf c => "InstanceOf(cls=" ++ c.shown ++ ")"
  | .unsatisfiable raw => "Unsatisfiable(raw=" ++ raw.shown ++ ")"
  | .fieldSpec isa optional => "FieldSpec(isa=" ++ isa.shown ++ ", optional=" ++ optional.shown ++ ")"
  | .schema _ raw fields => schemaText raw fields.length

def shownItems : List Value → List String
  | [] => []
  | x :: rest => x.shown :: shownItems rest

def shownEntries : List (Value × Value) → List (String × String)
  | [] => []
  | (k, v) :: rest => (k.shown, v.shown) :: shownEntries rest
end

/-- The files that an exception of the system is about, from their texts: one, or where from
and where to. -/
def filesText : List String → String
  | [] => ""
  | file :: rest => ": " ++ joinWith " -> " (file :: rest)

mutual
/-- The plain text of a value. An exception gives its single argument, and a read-only
mapping the mapping behind it. -/
def plain : Value → String
  | .atom a => a.plain
  | .mapping .proxy _ entries => MappingKind.shownWith (shownEntries entries) .dict
  | .exception c _ args files =>
    match plainSingle args with
    | some text => if c = .keyError then joinWith ", " (shownItems args) else text
    | none => manyText c (shownItems args) args ++ filesText (shownItems files)
  | v => v.shown

/-- The plain text of the only item. -/
def plainSingle : List Value → Option String
  | [x] => some x.plain
  | _ => none

/-- The plain text of an exception without arguments, or with several, of which the first
two are a number and a message if the exception comes from the system. -/
def manyText (c : Class) (shown : List String) : List Value → String
  | [] => ""
  | n :: message :: rest =>
    if c.isSubclass .osError && rest.length ≤ 3 then "[Errno " ++ n.plain ++ "] " ++ message.plain
    else tupleText shown
  | _ => tupleText shown
end

end Value
end ArgSchema
