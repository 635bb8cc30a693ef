/-
# Faults

Everything that can go wrong, by cause, and the wording of each cause.

Key definitions:
* `Fault`: the causes.
* `Fault.message`: their wording.
-/
import ArgSchema.Value.Text

namespace ArgSchema

/-- Why a call does not fit the parameters of a function. -/
inductive BindingFault where
  | missing (name : String)
  | tooMany
  | multiple (name : String)
  | unexpected (name : String)
  | positionalOnly (name : String)
  deriving DecidableEq, Repr

/-- Why a scalar of a YAML document has no value although it looks like one. -/
inductive ScalarFault where
  | calendar (fault : CalendarFault)
  | noDigits (base : Nat) (digits : String)
  | notANumber (text : String)
  | emptyNumber
  | unknownWord (word : String)
  | notAStamp
  | notAText
  | noCharacter
  | hugeCharacter
  | hugeWeight
  | tooManyDigits (count : Nat)
  deriving DecidableEq, Repr

/-- The most decimal digits that an integer is read from. -/
def digitLimit : Nat := 4300

/-- A cause of failure. -/
inductive Fault where
  /-- An object claims a negative length. -/
  | negativeLength
  /-- A length does not fit into a machine word. -/
  | hugeLength (c : Class)
  /-- There are more items than can be listed. -/
  | noMemory
  /-- A count of characters does not fit into a machine word. -/
  | hugeCount (c : Class)
  /-- An exception of the class takes one message, and is given another number of them. -/
  | messageCount (c : Class) (count : Nat)
  /-- An exception is given a part by a name that its class does not know. -/
  | unknownKeyword (c : Class) (name : String)
  /-- A value that can change is used as a key. -/
  | unhashable (c : Class)
  /-- A key is looked up that is not there. -/
  | missingKey (key : Value)
  /-- A value has no part of this name. -/
  | missingPart (owner : Value) (name : String)
  /-- A value has no items to go through. -/
  | notIterable (c : Class)
  /-- The keys of a class of mappings are asked for, instead of the keys of a mapping. -/
  | classKeys (c : Class)
  /-- An item that should be a pair has no items itself. -/
  | notAPair (position : Nat)
  /-- An item that should be a pair has another number of items. -/
  | pairLength (position length : Nat)
  /-- A structural outcome has no key to report. -/
  | noKeys
  /-- An item past the end is read, changed or removed. -/
  | outOfRange (c : Class) (write : Bool)
  /-- A position is not an integer. -/
  | badPosition (container key : Class)
  /-- A position does not fit into a machine word. -/
  | hugePosition (key : Class)
  /-- A view of bytes is changed. -/
  | readOnly
  /-- A value other than an integer is written among bytes. -/
  | notAnInteger (c : Class)
  /-- An integer is written among bytes that is none. -/
  | notAByte
  /-- A value is written, or appended, among the children of an element that is none. -/
  | notAnElement (c : Class) (append : Bool)
  /-- A class that takes no parameters is given some. -/
  | noParameters (c : Class)
  /-- A type that is written with its parameters is given some more. -/
  | parametersGiven (a : TypeAlias)
  /-- A value is given to the appending of a class, instead of to a collection of it. -/
  | unboundAppend (owner value : Class)
  /-- A value does not allow what is done with it. -/
  | unsupported (c : Class) (action : String)
  /-- An outcome does not allow what is done with it. -/
  | unsupportedOutcome (action : String)
  /-- An outcome has no part of this name. -/
  | missingOutcomePart (name : String)
  /-- A value other than a class stands where a class is asked for. -/
  | notAClass
  /-- A type with parameters stands where a class is asked for. -/
  | parameterizedClass
  /-- Values failed their schema: the message and the failed keys. -/
  | invalid (message : Value) (keys : List Value)
  /-- A call does not fit a function. -/
  | binding (fault : BindingFault)
  /-- A keyword takes the place of a parameter that is given already. -/
  | repeatedArgument (name : String)
  /-- A schema text could not be read or parsed. -/
  | load (message : String) (path : Option String)
  /-- A scalar of a schema text stands for no value. -/
  | scalar (fault : ScalarFault)
  /-- Schemas in YAML cannot be read here. -/
  | noYaml
  /-- A path holds the character zero. -/
  | zeroInPath
  deriving Repr

def BindingFault.message : BindingFault → String
  | .missing name => "missing a required argument: " ++ quoteText name
  | .tooMany => "too many positional arguments"
  | .multiple name => "multiple values for argument " ++ quoteText name
  | .unexpected name => "got an unexpected keyword argument " ++ quoteText name
  | .positionalOnly name =>
    quoteText name ++ " parameter is positional only, but was passed as a keyword"

def ScalarFault.message : ScalarFault → String
  | .calendar fault => fault.message
  | .noDigits base digits =>
    "invalid literal for int() with base " ++ toString base ++ ": " ++ quoteText digits
  | .notANumber text => "could not convert string to float: " ++ quoteText text
  | .emptyNumber => "string index out of range"
  | .unknownWord word => quoteText word
  | .notAStamp => "'NoneType' object has no attribute 'groupdict'"
  | .notAText => "expected string or bytes-like object, got 'list'"
  | .noCharacter => "chr() arg not in range(0x110000)"
  | .hugeCharacter => "Python int too large to convert to C int"
  | .hugeWeight => "int too large to convert to float"
  | .tooManyDigits count =>
    "Exceeds the limit (" ++ toString digitLimit ++ " digits) for integer string conversion: value has "
      ++ toString count ++ " digits; use sys.set_int_max_str_digits() to increase the limit"

/-- The wording for an exception that is not given one message. -/
def messageCountMessage (c : Class) (count : Nat) : String :=
  if count = 0 then c.name ++ ".__init__() missing 1 required positional argument: 'message'"
  else c.name ++ ".__init__() takes 2 positional arguments but " ++ toString (count + 1)
    ++ " were given"

/-- The wording for a name that a class of exceptions does not know. -/
def unknownKeywordMessage (c : Class) (name : String) : String :=
  if c.takesOneMessage then c.name ++ ".__init__() got an unexpected keyword argument '" ++ name ++ "'"
  else c.name ++ "() takes no keyword arguments"

/-- The wording for a part that a value does not have. An enumeration only gives the name. -/
def missingPartMessage (owner : Value) (name : String) : String :=
  match owner with
  | .atom (.cls c) =>
    if c.memberCount?.isSome then name
    else "type object '" ++ c.label ++ "' has no attribute '" ++ name ++ "'"
  | .atom (.typeAlias .listOfInt) => "type object 'list' has no attribute '" ++ name ++ "'"
  | .atom (.typeAlias .dictOfStrInt) => "type object 'dict' has no attribute '" ++ name ++ "'"
  | v => "'" ++ v.classOf.label ++ "' object has no attribute '" ++ name ++ "'"

/-- The wording for the keys of a class, by the class that defines them. -/
def classKeysMessage (c : Class) : String :=
  if c.isSubclass .dict || c = .element then
    "unbound method " ++ (if c = .orderedDict || c = .element then c.name else Class.dict.name)
      ++ ".keys() needs an argument"
  else "Mapping.keys() missing 1 required positional argument: 'self'"

/-- The wording for a position past the end. -/
def outOfRangeMessage (c : Class) (write : Bool) : String :=
  match c, write with
  | .list, true => "list assignment index out of range"
  | .element, true => "child assignment index out of range"
  | .element, false => "child index out of range"
  | .str, _ => "string index out of range"
  | .bytes, _ => "index out of range"
  | .memoryview, _ => "index out of bounds on dimension 1"
  | .range, _ => "range object index out of range"
  | c, _ => c.name ++ " index out of range"

/-- The wording for a position that is not an integer. -/
def badPositionMessage (container key : Class) : String :=
  match container with
  | .deque => "sequence index must be integer, not '" ++ key.label ++ "'"
  | .str => "string indices must be integers, not '" ++ key.label ++ "'"
  | .bytes => "byte indices must be integers or slices, not " ++ key.label
  | .memoryview => "memoryview: invalid slice key"
  | .element => "element indices must be integers"
  | c => c.name ++ " indices must be integers or slices, not " ++ key.label

/-- The wording for a value that cannot be a child of an element. -/
def notAnElementMessage (c : Class) (append : Bool) : String :=
  if append then
    "append() argument must be " ++ Class.element.qualified ++ ", not "
      ++ (if c = .noneType then Value.null.shown else c.label)
  else "expected an Element, not \"" ++ c.label ++ "\""

/-- The wording for appending by a class: a built-in class looks at what it is given, other
classes only count it. -/
def unboundAppendMessage (owner value : Class) : String :=
  match owner with
  | .userList => "UserList.append() missing 1 required positional argument: 'item'"
  | .mutableSequence => "MutableSequence.append() missing 1 required positional argument: 'value'"
  | c =>
    if value.isSubclass c then c.name ++ ".append() takes exactly one argument (0 given)"
    else "descriptor 'append' for '" ++ c.label ++ "' objects doesn't apply to a '"
      ++ value.label ++ "' object"

def Fault.message : Fault → String
  | .negativeLength => "__len__() should return >= 0"
  | .hugeLength .range => "Python int too large to convert to C ssize_t"
  | .hugeLength _ => "cannot fit 'int' into an index-sized integer"
  | .noMemory => ""
  | .hugeCount c => "cannot fit '" ++ c.label ++ "' into an index-sized integer"
  | .messageCount c count => messageCountMessage c count
  | .unknownKeyword c name => unknownKeywordMessage c name
  | .unhashable c => "unhashable type: '" ++ c.label ++ "'"
  | .missingKey key => key.shown
  | .missingPart owner name => missingPartMessage owner name
  | .notIterable c => "'" ++ c.label ++ "' object is not iterable"
  | .classKeys c => classKeysMessage c
  | .notAPair position =>
    "cannot convert dictionary update sequence element #" ++ toString position ++ " to a sequence"
  | .pairLength position length =>
    "dictionary update sequence element #" ++ toString position ++ " has length "
      ++ toString length ++ "; 2 is required"
  | .noKeys => "tuple index out of range"
  | .outOfRange c write => outOfRangeMessage c write
  | .badPosition container key => badPositionMessage container key
  | .hugePosition key => "cannot fit '" ++ key.label ++ "' into an index-sized integer"
  | .readOnly => "cannot modify read-only memory"
  | .notAnInteger c => "'" ++ c.label ++ "' object cannot be interpreted as an integer"
  | .notAByte => "byte must be in range(0, 256)"
  | .notAnElement c append => notAnElementMessage c append
  | .noParameters c => "type '" ++ c.label ++ "' is not subscriptable"
  | .parametersGiven a => a.text ++ " is not a generic class"
  | .unboundAppend owner value => unboundAppendMessage owner value
  | .unsupported c action => "'" ++ c.label ++ "' object " ++ action
  | .unsupportedOutcome action => "'ValidationResult' object " ++ action
  | .missingOutcomePart name => "'ValidationResult' object has no attribute '" ++ name ++ "'"
  | .notAClass => "isinstance() arg 2 must be a type, a tuple of types, or a union"
  | .parameterizedClass => "isinstance() argument 2 cannot be a parameterized generic"
  | .invalid message _ => message.plain
  | .binding fault => fault.message
  | .repeatedArgument name => "guard() got multiple values for argument '" ++ name ++ "'"
  | .load message _ => message
  | .scalar fault => fault.message
  | .noYaml => "Loading YAML schemas requires PyYAML: pip install validate-arguments[yaml]"
  | .zeroInPath => "embedded null byte"

end ArgSchema
