/-
# Classes

The class of every value, the classes that a schema can name and the order
between them. The abstract classes (numbers, sequences, mappings, what has a
length or can be called) stand above the concrete ones that answer to them.

Key definitions:
* `Class.ancestors`: every class above a class.
* `Class.isSubclass`: a class counts as itself and as each of its ancestors.
* `Class.name`, `Class.shown`, `Class.label`: its name alone, as a quoted value,
  and as error messages spell it.
-/
namespace ArgSchema

/-- A class of values. -/
inductive Class where
  | object
  | classType
  | enumType
  | abstractType
  | number
  | abstractComplex
  | real
  | rational
  | integral
  | sized
  | iterable
  | callable
  | sequence
  | mutableSequence
  | mapping
  | mutableMapping
  | abstractSet
  | noneType
  | bool
  | int
  | intSub
  | float
  | floatSub
  | complex
  | fraction
  | decimal
  | str
  | strSub
  | userString
  | bytes
  | bytearray
  | memoryview
  | range
  | list
  | listSub
  | tuple
  | tupleSub
  | point
  | deque
  | userList
  | pair
  | set
  | frozenset
  | generator
  | dict
  | dictSub
  | orderedDict
  | defaultDict
  | mappingProxy
  | userDict
  | chainMap
  | date
  | datetime
  | time
  | timedelta
  | pattern
  | element
  | enumeration
  | color
  | level
  | baseException
  | exception
  | valueError
  | typeError
  | lookupError
  | keyError
  | indexError
  | arithmeticError
  | zeroDivisionError
  | osError
  | fileNotFoundError
  | blockingError
  | childProcessError
  | connectionError
  | brokenPipeError
  | connectionAbortedError
  | connectionRefusedError
  | connectionResetError
  | fileExistsError
  | interruptedError
  | isADirectoryError
  | notADirectoryError
  | permissionError
  | processLookupError
  | timeoutError
  | argumentsError
  | argumentValidationError
  | schemaLoadError
  | plain
  | sub
  | callMe
  | sizedOnly
  | function
  | builtinFunction
  | method
  | partialCall
  | genericAlias
  | unionType
  | schema
  | fieldSpec
  | typeName
  | nestedSchema
  | instanceOf
  | unsatisfiable
  deriving DecidableEq, Repr

namespace Class

/-- Every class. -/
def all : List Class :=
  [.object, .classType, .enumType, .abstractType, .number, .abstractComplex, .real, .rational,
   .integral, .sized, .iterable, .callable, .sequence, .mutableSequence, .mapping,
   .mutableMapping, .abstractSet, .noneType, .bool, .int, .intSub, .float, .floatSub, .complex,
   .fraction, .decimal, .str, .strSub, .userString, .bytes, .bytearray, .memoryview, .range,
   .list, .listSub, .tuple, .tupleSub, .point, .deque, .userList, .pair, .set, .frozenset,
   .generator, .dict, .dictSub, .orderedDict, .defaultDict, .mappingProxy, .userDict, .chainMap,
   .date, .datetime, .time, .timedelta, .pattern, .element, .enumeration, .color, .level,
   .baseException, .exception, .valueError, .typeError, .lookupError, .keyError, .indexError,
   .arithmeticError, .zeroDivisionError, .osError, .fileNotFoundError, .blockingError,
   .childProcessError, .connectionError, .brokenPipeError, .connectionAbortedError,
   .connectionRefusedError, .connectionResetError, .fileExistsError, .interruptedError,
   .isADirectoryError, .notADirectoryError, .permissionError, .processLookupError, .timeoutError,
   .argumentsError, .argumentValidationError, .schemaLoadError, .plain, .sub, .callMe, .sizedOnly,
   .function, .builtinFunction, .method, .partialCall, .genericAlias, .unionType, .schema,
   .fieldSpec, .typeName, .nestedSchema, .instanceOf, .unsatisfiable]

/-- The name alone. -/
def name : Class → String
  | .object => "object"
  | .classType => "type"
  | .enumType => "EnumType"
  | .abstractType => "ABCMeta"
  | .number => "Number"
  | .abstractComplex => "Complex"
  | .real => "Real"
  | .rational => "Rational"
  | .integral => "Integral"
  | .sized => "Sized"
  | .iterable => "Iterable"
  | .callable => "Callable"
  | .sequence => "Sequence"
  | .mutableSequence => "MutableSequence"
  | .mapping => "Mapping"
  | .mutableMapping => "MutableMapping"
  | .abstractSet => "Set"
  | .noneType => "NoneType"
  | .bool => "bool"
  | .int => "int"
  | .intSub => "IntSub"
  | .float => "float"
  | .floatSub => "FloatSub"
  | .complex => "complex"
  | .fraction => "Fraction"
  | .decimal => "Decimal"
  | .str => "str"
  | .strSub => "StrSub"
  | .userString => "UserString"
  | .bytes => "bytes"
  | .bytearray => "bytearray"
  | .memoryview => "memoryview"
  | .range => "range"
  | .list => "list"
  | .listSub => "ListSub"
  | .tuple => "tuple"
  | .tupleSub => "TupleSub"
  | .point => "Point"
  | .deque => "deque"
  | .userList => "UserList"
  | .pair => "Pair"
  | .set => "set"
  | .frozenset => "frozenset"
  | .generator => "generator"
  | .dict => "dict"
  | .dictSub => "DictSub"
  | .orderedDict => "OrderedDict"
  | .defaultDict => "defaultdict"
  | .mappingProxy => "mappingproxy"
  | .userDict => "UserDict"
  | .chainMap => "ChainMap"
  | .date => "date"
  | .datetime => "datetime"
  | .time => "time"
  | .timedelta => "timedelta"
  | .pattern => "Pattern"
  | .element => "Element"
  | .enumeration => "Enum"
  | .color => "Color"
  | .level => "Level"
  | .baseException => "BaseException"
  | .exception => "Exception"
  | .valueError => "ValueError"
  | .typeError => "TypeError"
  | .lookupError => "LookupError"
  | .keyError => "KeyError"
  | .indexError => "IndexError"
  | .arithmeticError => "ArithmeticError"
  | .zeroDivisionError => "ZeroDivisionError"
  | .osError => "OSError"
  | .fileNotFoundError => "FileNotFoundError"
  | .blockingError => "BlockingIOError"
  | .childProcessError => "ChildProcessError"
  | .connectionError => "ConnectionError"
  | .brokenPipeError => "BrokenPipeError"
  | .connectionAbortedError => "ConnectionAbortedError"
  | .connectionRefusedError => "ConnectionRefusedError"
  | .connectionResetError => "ConnectionResetError"
  | .fileExistsError => "FileExistsError"
  | .interruptedError => "InterruptedError"
  | .isADirectoryError => "IsADirectoryError"
  | .notADirectoryError => "NotADirectoryError"
  | .permissionError => "PermissionError"
  | .processLookupError => "ProcessLookupError"
  | .timeoutError => "TimeoutError"
  | .argumentsError => "ValidateArgumentsError"
  | .argumentValidationError => "ArgumentValidationError"
  | .schemaLoadError => "SchemaLoadError"
  | .plain => "Plain"
  | .sub => "Sub"
  | .callMe => "CallMe"
  | .sizedOnly => "Sized"
  | .function => "function"
  | .builtinFunction => "builtin_function_or_method"
  | .method => "method"
  | .partialCall => "partial"
  | .genericAlias => "GenericAlias"
  | .unionType => "UnionType"
  | .schema => "Schema"
  | .fieldSpec => "FieldSpec"
  | .typeName => "TypeName"
  | .nestedSchema => "NestedSchema"
  | .instanceOf => "InstanceOf"
  | .unsatisfiable => "Unsatisfiable"

/-- Where a class is declared; classes that need no introduction have no home. -/
def home : Class → String
  | .enumType | .enumeration => "enum"
  | .abstractType => "abc"
  | .number | .abstractComplex | .real | .rational | .integral => "numbers"
  | .sized | .iterable | .callable | .sequence | .mutableSequence | .mapping |
    .mutableMapping | .abstractSet => "collections.abc"
  | .intSub | .floatSub | .strSub | .listSub | .tupleSub | .point | .pair | .dictSub |
    .color | .level | .plain | .sub | .callMe | .sizedOnly => "__main__"
  | .fraction => "fractions"
  | .decimal => "decimal"
  | .userString | .deque | .userList | .orderedDict | .defaultDict | .userDict |
    .chainMap => "collections"
  | .date | .datetime | .time | .timedelta => "datetime"
  | .pattern => "re"
  | .element => "xml.etree.ElementTree"
  | .argumentsError | .argumentValidationError | .schemaLoadError => "validate_arguments.exceptions"
  | .partialCall => "functools"
  | .genericAlias | .unionType => "types"
  | .schema | .fieldSpec | .typeName | .nestedSchema | .instanceOf | .unsatisfiable => "validate_arguments.schema"
  | _ => ""

/-- The name with its home. -/
def qualified (c : Class) : String := if c.home = "" then c.name else c.home ++ "." ++ c.name

/-- The name that error messages use: a few classes always go by their qualified name. -/
def label (c : Class) : String :=
  match c with
  | .decimal | .deque | .orderedDict | .defaultDict | .date | .datetime | .time |
    .timedelta | .pattern | .element | .partialCall | .genericAlias | .unionType => c.qualified
  | _ => c.name

/-! ### The order -/

def sequenceLike : List Class := [.sequence, .sized, .iterable, .object]
def mutableSequenceLike : List Class := .mutableSequence :: sequenceLike
def mappingLike : List Class := [.mapping, .sized, .iterable, .object]
def mutableMappingLike : List Class := .mutableMapping :: mappingLike
def realLike : List Class := [.real, .abstractComplex, .number, .object]
def rationalLike : List Class := .rational :: realLike
def integralLike : List Class := .integral :: rationalLike
def systemErrorLike : List Class := [.osError, .exception, .baseException, .object]

/-- Every class above a class. -/
def ancestors : Class → List Class
  | .object => []
  | .classType => [.callable, .object]
  | .enumType => [.classType, .callable, .sized, .iterable, .object]
  | .abstractType => [.classType, .callable, .object]
  | .number => [.object]
  | .abstractComplex => [.number, .object]
  | .real => [.abstractComplex, .number, .object]
  | .rational => [.real, .abstractComplex, .number, .object]
  | .integral => [.rational, .real, .abstractComplex, .number, .object]
  | .sized => [.object]
  | .iterable => [.object]
  | .callable => [.object]
  | .sequence => [.sized, .iterable, .object]
  | .mutableSequence => [.sequence, .sized, .iterable, .object]
  | .mapping => [.sized, .iterable, .object]
  | .mutableMapping => [.mapping, .sized, .iterable, .object]
  | .abstractSet => [.sized, .iterable, .object]
  | .noneType => [.object]
  | .bool => .int :: integralLike
  | .int => integralLike
  | .intSub => .int :: integralLike
  | .float => realLike
  | .floatSub => .float :: realLike
  | .complex => [.abstractComplex, .number, .object]
  | .fraction => rationalLike
  | .decimal => [.number, .object]
  | .str => sequenceLike
  | .strSub => .str :: sequenceLike
  | .userString => sequenceLike
  | .bytes => sequenceLike
  | .bytearray => mutableSequenceLike
  | .memoryview => sequenceLike
  | .range => sequenceLike
  | .list => mutableSequenceLike
  | .listSub => .list :: mutableSequenceLike
  | .tuple => sequenceLike
  | .tupleSub => .tuple :: sequenceLike
  | .point => .tuple :: sequenceLike
  | .deque => mutableSequenceLike
  | .userList => mutableSequenceLike
  | .pair => sequenceLike
  | .set => [.abstractSet, .sized, .iterable, .object]
  | .frozenset => [.abstractSet, .sized, .iterable, .object]
  | .generator => [.iterable, .object]
  | .dict => mutableMappingLike
  | .dictSub => .dict :: mutableMappingLike
  | .orderedDict => .dict :: mutableMappingLike
  | .defaultDict => .dict :: mutableMappingLike
  | .mappingProxy => [.mapping, .sized, .iterable, .object]
  | .userDict => mutableMappingLike
  | .chainMap => mutableMappingLike
  | .date => [.object]
  | .datetime => [.date, .object]
  | .time => [.object]
  | .timedelta => [.object]
  | .pattern => [.object]
  | .element => [.sized, .object]
  | .enumeration => [.object]
  | .color => [.enumeration, .object]
  | .level => .int :: .enumeration :: integralLike
  | .baseException => [.object]
  | .exception => [.baseException, .object]
  | .valueError => [.exception, .baseException, .object]
  | .typeError => [.exception, .baseException, .object]
  | .lookupError => [.exception, .baseException, .object]
  | .keyError => [.lookupError, .exception, .baseException, .object]
  | .indexError => [.lookupError, .exception, .baseException, .object]
  | .arithmeticError => [.exception, .baseException, .object]
  | .zeroDivisionError => [.arithmeticError, .exception, .baseException, .object]
  | .osError => [.exception, .baseException, .object]
  | .fileNotFoundError | .blockingError | .childProcessError | .connectionError | .fileExistsError
  | .interruptedError | .isADirectoryError | .notADirectoryError | .permissionError
  | .processLookupError | .timeoutError => systemErrorLike
  | .brokenPipeError | .connectionAbortedError | .connectionRefusedError
  | .connectionResetError => .connectionError :: systemErrorLike
  | .argumentsError => [.exception, .baseException, .object]
  | .argumentValidationError => [.argumentsError, .valueError, .exception, .baseException, .object]
  | .schemaLoadError => [.argumentsError, .exception, .baseException, .object]
  | .plain => [.object]
  | .sub => [.plain, .object]
  | .callMe => [.callable, .object]
  | .sizedOnly => [.sized, .object]
  | .function => [.callable, .object]
  | .builtinFunction => [.callable, .object]
  | .method => [.callable, .object]
  | .partialCall => [.callable, .object]
  | .genericAlias => [.callable, .iterable, .object]
  | .unionType => [.object]
  | .schema => [.sized, .object]
  | .fieldSpec => [.object]
  | .typeName => [.object]
  | .nestedSchema => [.object]
  | .instanceOf => [.object]
  | .unsatisfiable => [.object]

/-- Whether `c` is `d` or stands below it. -/
def isSubclass (c d : Class) : Bool := c == d || c.ancestors.contains d

/-- The class of a class. Enumerations have members, hence a class of their own, and
so do the abstract classes with all that is declared below them. -/
def metaclass : Class → Class
  | .enumeration | .color | .level => .enumType
  | .number | .abstractComplex | .real | .rational | .integral | .sized | .iterable | .callable
  | .sequence | .mutableSequence | .mapping | .mutableMapping | .abstractSet | .fraction
  | .userString | .userList | .pair | .userDict | .chainMap => .abstractType
  | _ => .classType

/-- A class as a quoted value: an enumeration with its name alone, other classes with their
home. -/
def shown (c : Class) : String :=
  if c.metaclass = .enumType then "<enum '" ++ c.name ++ "'>" else "<class '" ++ c.qualified ++ "'>"

/-- Whether an integer key counts as a position for an object of the class, even for one
that holds no items: it does not for the plainest objects. -/
def hasPositions (c : Class) : Bool :=
  match c with
  | .object | .noneType | .bool | .int | .float | .complex | .decimal | .date | .datetime | .time
  | .timedelta | .generator | .function | .builtinFunction | .method | .classType | .genericAlias
  | .unionType => false
  | c => c.isSubclass .argumentsError || !c.isSubclass .baseException

/-- Whether exceptions of a class are made from one message and nothing else. -/
def takesOneMessage (c : Class) : Bool := c == .argumentValidationError || c == .schemaLoadError

/-- What an exception of a class can be given by name. -/
def keywords : Class → List String
  | .argumentValidationError => ["result"]
  | .schemaLoadError => ["path"]
  | _ => []

/-- The number of members of an enumeration; other classes have none and no length. -/
def memberCount? : Class → Option Nat
  | .enumeration => some 0
  | .color => some 2
  | .level => some 3
  | _ => none

end Class
end ArgSchema
