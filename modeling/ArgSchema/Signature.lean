/-
# Signatures and calls

The parameters of a function and how a call gives them their arguments: first by
position, then by name; what is left over goes to the parameters that take the rest,
if there are any, and parameters without an argument take their defaults.

Key definitions:
* `Parameter`, `Signature`, `Call`.
* `Signature.placePositional`: the arguments that are given by position.
* `Signature.placeKeywords`: the arguments that are given by name.
* `Signature.bind`: every parameter with its argument, in the order of the parameters.
-/
import ArgSchema.Fault

namespace ArgSchema

/-- How a parameter takes its argument: by position, by name, in both ways, or by taking
all the positions or names that are left. -/
inductive ParameterKind where
  | positionOnly | standard | otherPositions | keywordOnly | otherKeywords
  deriving DecidableEq, Repr

/-- A parameter; one without a default is required unless it takes what is left. -/
structure Parameter where
  name : String
  kind : ParameterKind
  default? : Option Value
  deriving Repr

abbrev Signature := List Parameter

/-- Arguments by name, in order. -/
abbrev Arguments := List (String × Value)

/-- The arguments of a call, by position and by name; no name is given twice. -/
structure Call where
  positions : List Value
  keywords : Arguments
  deriving Repr

namespace Parameter

/-- What a parameter holds if a call gives it nothing. -/
def filler (p : Parameter) : Value :=
  match p.default?, p.kind with
  | some v, _ => v
  | none, .otherPositions => .ofTuple []
  | none, .otherKeywords => .ofEntries []
  | none, _ => .null

/-- Whether a call may leave out an argument that the parameter can take by name. -/
def mayBeLeftOut (p : Parameter) : Bool := p.kind == .otherKeywords || p.default?.isSome

end Parameter

namespace Arguments

/-- Whether there is an argument of this name. -/
def has (name : String) (as : Arguments) : Bool := (as.lookup name).isSome

/-- Leaves out the argument of this name. -/
def without (name : String) (as : Arguments) : Arguments := as.eraseP fun a => a.1 == name

/-- The arguments as a mapping. -/
def toValue (as : Arguments) : Value := .ofEntries (as.map fun a => (.ofText a.1, a.2))

end Arguments

namespace Signature

/-- Gives parameters their arguments by position, and says which parameters are still to
be looked for among the keywords. -/
def placePositional (keywords : Arguments) :
    Signature → List Value → Except BindingFault (Arguments × Signature)
  | [], [] => .ok ([], [])
  | [], _ :: _ => .error .tooMany
  | p :: rest, [] =>
    if p.kind = .otherPositions then .ok ([], rest)
    else if keywords.has p.name then
      if p.kind = .positionOnly then .error (.positionalOnly p.name) else .ok ([], p :: rest)
    else if p.mayBeLeftOut then .ok ([], p :: rest)
    else .error (.missing p.name)
  | p :: rest, x :: xs =>
    match p.kind with
    | .keywordOnly | .otherKeywords => .error .tooMany
    | .otherPositions => .ok ([(p.name, .ofTuple (x :: xs))], rest)
    | .positionOnly => do
      let (placed, waiting) ← placePositional keywords rest xs
      .ok ((p.name, x) :: placed, waiting)
    | .standard => do
      if keywords.has p.name then .error (.multiple p.name)
      else
        let (placed, waiting) ← placePositional keywords rest xs
        .ok ((p.name, x) :: placed, waiting)

/-- Gives parameters their arguments by name, and says which keywords are left. -/
def placeKeywords : Signature → Arguments → Except BindingFault (Arguments × Arguments)
  | [], keywords => .ok ([], keywords)
  | p :: rest, keywords =>
    match p.kind with
    | .otherPositions | .otherKeywords => placeKeywords rest keywords
    | kind =>
      match keywords.lookup p.name with
      | none =>
        if p.default?.isSome then placeKeywords rest keywords else .error (.missing p.name)
      | some x =>
        if kind = .positionOnly then .error (.positionalOnly p.name)
        else do
          let (placed, left) ← placeKeywords rest (keywords.without p.name)
          .ok ((p.name, x) :: placed, left)

/-- Gives the keywords that are left to the parameter that takes them. -/
def placeRest (waiting : Signature) (left : Arguments) : Except BindingFault Arguments :=
  match left with
  | [] => .ok []
  | (name, _) :: _ =>
    match waiting.find? fun p => p.kind == .otherKeywords with
    | some p => .ok [(p.name, left.toValue)]
    | none => .error (.unexpected name)

/-- Every parameter with its argument, in the order of the parameters. -/
def bind (s : Signature) (call : Call) : Except BindingFault Arguments := do
  let (byPosition, waiting) ← placePositional call.keywords s call.positions
  let (byName, left) ← placeKeywords waiting call.keywords
  let others ← placeRest waiting left
  let placed := byPosition ++ byName ++ others
  .ok (s.map fun p => (p.name, (placed.lookup p.name).getD p.filler))

end Signature
end ArgSchema
