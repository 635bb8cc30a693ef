/-
# Nodes of a YAML document

The graph that the tokens of a document write: scalars, sequences and mappings, each
with the type it is read as. An alias stands for the node of its anchor, which is known
as soon as the node begins.

Key definitions:
* `Draft`: the nodes and the anchors read so far.
* `Document`: a graph and its outermost node.
* `Document.ofTokens`: the only document of a list of tokens.
-/
import ArgSchema.Yaml.Token
import ArgSchema.Yaml.Graph

namespace ArgSchema
namespace Yaml

/-- The nodes so far, and the numbers of those that have an anchor. -/
structure Draft where
  graph : Graph
  anchors : List (String × Nat)

namespace Draft

def empty : Draft := ⟨Graph.empty, []⟩

/-- The number of a new node, which may have an anchor, and the draft with it. -/
def add (d : Draft) (anchor : Option String) (n : Node) : Nat × Draft :=
  let (id, g) := d.graph.add n
  (id, ⟨g, match anchor with
    | some a => (a, id) :: d.anchors
    | none => d.anchors⟩)

def set (d : Draft) (id : Nat) (n : Node) : Draft := { d with graph := d.graph.set id n }

/-- The number of the node with an anchor. -/
def find? (d : Draft) (anchor : String) : Option Nat := d.anchors.lookup anchor

end Draft

/-- The handles of tags and what they stand for. -/
abbrev Handles := List (String × String)

def defaultHandles : Handles := [("!", "!"), ("!!", "tag:yaml.org,2002:")]

/-- What a node is marked with before its contents. -/
structure Marks where
  anchor : Option String
  tag : Option String

def Marks.isEmpty (m : Marks) : Bool := m.anchor.isNone && m.tag.isNone

/-- What a reader of tokens gives: a result, the draft and the tokens that are left. -/
structure Progress (α : Type) where
  result : α
  draft : Draft
  rest : List Token

namespace Node

/-- The types that tags name. -/
def typeOfTag? (tag : String) : Option NodeType :=
  [("null", NodeType.scalar .null), ("bool", .scalar .bool), ("int", .scalar .int), ("float", .scalar .float),
    ("timestamp", .scalar .timestamp), ("binary", .scalar .binary), ("str", .scalar .text),
    ("merge", .scalar .merge), ("value", .scalar .default), ("seq", .list), ("map", .mapping),
    ("set", .set), ("omap", .pairs), ("pairs", .pairs)].findSome?
      fun (name, t) => if tag = "tag:yaml.org,2002:" ++ name then some t else none

/-- The tag that a handle and a suffix write. -/
def resolveTag (handles : Handles) (handle : Option String) (suffix : String) : Except Trouble String :=
  match handle with
  | none => .ok suffix
  | some h => match handles.find? fun e => e.1 == h with
    | some e => .ok (e.2 ++ suffix)
    | none => .error .malformed

/-- Fails if the text goes wrong at the next token. -/
def ready : List Token → Except Trouble Unit
  | .fault cause :: _ => .error (.scalar cause)
  | _ => .ok ()

/-- The anchor and the tag at the front, in either order. -/
def marks (handles : Handles) : List Token → Except Trouble (Marks × List Token)
  | .anchor a :: .tag h s :: rest => do .ok (⟨some a, some (← resolveTag handles h s)⟩, rest)
  | .anchor a :: rest => .ok (⟨some a, none⟩, rest)
  | .tag h s :: .anchor a :: rest => do .ok (⟨some a, some (← resolveTag handles h s)⟩, rest)
  | .tag h s :: rest => do
    ready rest
    .ok (⟨none, some (← resolveTag handles h s)⟩, rest)
  | rest => .ok (⟨none, none⟩, rest)

/-- A scalar with its type: a plain one is what it is written like, a quoted one is text,
unless a tag says otherwise. -/
def scalarNode (tag : Option String) (plain : Bool) (text : String) : Node :=
  match tag with
  | some "!" => .scalar (some (.scalar (ScalarType.ofPlain text))) text
  | some t => .scalar (typeOfTag? t) text
  | none => .scalar (some (.scalar (if plain then ScalarType.ofPlain text else .text))) text

/-- The type of a collection, `usual` unless a tag says otherwise. -/
def collectionType (tag : Option String) (usual : NodeType) : Option NodeType :=
  match tag with
  | none | some "!" => some usual
  | some t => typeOfTag? t

/-- Gives a scalar with these marks a number. -/
def marked (d : Draft) (m : Marks) (plain : Bool) (text : String) (rest : List Token) : Progress Nat :=
  let (id, d) := d.add m.anchor (scalarNode m.tag plain text)
  ⟨id, d, rest⟩

/-- The scalar of nothing at all. -/
def nothing (d : Draft) (rest : List Token) : Progress Nat := marked d ⟨none, none⟩ true "" rest

/-- Gives a collection a number, then reads its parts. -/
def collection {α : Type} (d : Draft) (anchor : Option String) (make : List α → Node)
    (parts : Draft → Except Trouble (Progress (List α))) : Except Trouble (Progress Nat) := do
  let (id, d) := d.add anchor (make [])
  let p ← parts d
  .ok ⟨id, p.draft.set id (make p.result), p.rest⟩

/-- Where a node is read: in a block, in a block that allows the entries of a sequence
without indentation, or in a flow collection. -/
inductive Place where
  | block | value | flow
  deriving DecidableEq, Repr

/-- Tokens that end what stands before them where a node could be. -/
def isOneOf (ts : List Token) (rest : List Token) : Bool :=
  match rest with
  | t :: _ => ts.contains t
  | [] => false

/-- Passes the comma before an entry of a flow collection that is not the first. -/
def nextEntry (first : Bool) (tokens : List Token) : Except Trouble (List Token) := do
  ready tokens
  if first then .ok tokens
  else match tokens with
    | .flowEntry :: rest => do
      ready rest
      .ok rest
    | _ => .error .malformed

mutual
/-- Reads a node. Every node takes a token at least, which bounds the nesting. -/
def node (handles : Handles) : (bound : Nat) → Place → Draft → List Token → Except Trouble (Progress Nat)
  | 0, _, _, _ => .error .malformed
  | bound + 1, place, d, tokens =>
    match tokens with
    | .reference name :: rest =>
      match d.find? name with
      | some id => .ok ⟨id, d, rest⟩
      | none => .error .malformed
    | tokens => do
      let (m, tokens) ← marks handles tokens
      ready tokens
      let sequence := collection d m.anchor (Node.sequence (collectionType m.tag .list))
      let mapping := collection d m.anchor (Node.mapping (collectionType m.tag .mapping))
      if (m.anchor.bind d.find?).isSome then .error .malformed
      else match place, tokens with
        | .value, .blockEntry :: _ => sequence fun d => entries handles bound true d tokens
        | _, .scalar plain text :: rest => .ok (marked d m plain text rest)
        | _, .flowSequenceStart :: rest => sequence fun d => flowItems handles bound true d rest
        | _, .flowMappingStart :: rest => mapping fun d => flowPairs handles bound true d rest
        | .block, .blockSequenceStart :: rest | .value, .blockSequenceStart :: rest =>
          sequence fun d => entries handles bound false d rest
        | .block, .blockMappingStart :: rest | .value, .blockMappingStart :: rest =>
          mapping fun d => pairs handles bound d rest
        | _, tokens => if m.isEmpty then .error .malformed else .ok (marked d m true "" tokens)

/-- Reads a node, or nothing before one of the tokens `ends`. -/
def nodeUnless (handles : Handles) : (bound : Nat) → Place → (ends : List Token) → Draft →
    List Token → Except Trouble (Progress Nat)
  | 0, _, _, _, _ => .error .malformed
  | bound + 1, place, ends, d, tokens =>
    if isOneOf ends tokens then .ok (nothing d tokens) else node handles bound place d tokens

/-- Reads the value of a key, if there is one. -/
def valueOf (handles : Handles) : (bound : Nat) → Place → (ends : List Token) → Draft →
    List Token → Except Trouble (Progress Nat)
  | 0, _, _, _, _ => .error .malformed
  | bound + 1, place, ends, d, tokens => do
    ready tokens
    match tokens with
    | .value :: rest => nodeUnless handles bound place ends d rest
    | rest => .ok (nothing d rest)

/-- Reads the entries of a block sequence and, unless it has no indentation of its own,
its end. -/
def entries (handles : Handles) : (bound : Nat) → (bare : Bool) → Draft → List Token →
    Except Trouble (Progress (List Nat))
  | 0, _, _, _ => .error .malformed
  | bound + 1, bare, d, tokens => do
    ready tokens
    match tokens with
    | .blockEntry :: rest => do
      let ends : List Token := if bare then [.blockEntry, .key, .value, .blockEnd] else [.blockEntry, .blockEnd]
      let p ← nodeUnless handles bound .block ends d rest
      let q ← entries handles bound bare p.draft p.rest
      .ok { q with result := p.result :: q.result }
    | tokens =>
      if bare then .ok ⟨[], d, tokens⟩
      else match tokens with
        | .blockEnd :: rest => .ok ⟨[], d, rest⟩
        | _ => .error .malformed

/-- Reads the pairs of a block mapping and its end. -/
def pairs (handles : Handles) : (bound : Nat) → Draft → List Token → Except Trouble (Progress (List (Nat × Nat)))
  | 0, _, _ => .error .malformed
  | bound + 1, d, tokens => do
    let ends : List Token := [.key, .value, .blockEnd]
    ready tokens
    match tokens with
    | .blockEnd :: rest => .ok ⟨[], d, rest⟩
    | .key :: rest => do
      let k ← nodeUnless handles bound .value ends d rest
      let v ← valueOf handles bound .value ends k.draft k.rest
      let q ← pairs handles bound v.draft v.rest
      .ok { q with result := (k.result, v.result) :: q.result }
    | _ => .error .malformed

/-- Reads the items of a flow sequence and its end. A pair stands for a mapping. -/
def flowItems (handles : Handles) : (bound : Nat) → (first : Bool) → Draft → List Token →
    Except Trouble (Progress (List Nat))
  | 0, _, _, _ => .error .malformed
  | bound + 1, first, d, tokens =>
    match tokens with
    | .flowSequenceEnd :: rest => .ok ⟨[], d, rest⟩
    | tokens => do
      let ends : List Token := [.flowEntry, .flowSequenceEnd]
      let tokens ← nextEntry first tokens
      match tokens with
      | .flowSequenceEnd :: rest => .ok ⟨[], d, rest⟩
      | .key :: rest => do
        let k ← nodeUnless handles bound .flow (.value :: ends) d rest
        let v ← valueOf handles bound .flow ends k.draft k.rest
        let (id, d) := v.draft.add none (.mapping (some .mapping) [(k.result, v.result)])
        let q ← flowItems handles bound false d v.rest
        .ok { q with result := id :: q.result }
      | tokens => do
        let p ← node handles bound .flow d tokens
        let q ← flowItems handles bound false p.draft p.rest
        .ok { q with result := p.result :: q.result }

/-- Reads the pairs of a flow mapping and its end. A key without a value has an empty one. -/
def flowPairs (handles : Handles) : (bound : Nat) → (first : Bool) → Draft → List Token →
    Except Trouble (Progress (List (Nat × Nat)))
  | 0, _, _, _ => .error .malformed
  | bound + 1, first, d, tokens =>
    match tokens with
    | .flowMappingEnd :: rest => .ok ⟨[], d, rest⟩
    | tokens => do
      let ends : List Token := [.flowEntry, .flowMappingEnd]
      let tokens ← nextEntry first tokens
      match tokens with
      | .flowMappingEnd :: rest => .ok ⟨[], d, rest⟩
      | .key :: rest => do
        let k ← nodeUnless handles bound .flow (.value :: ends) d rest
        let v ← valueOf handles bound .flow ends k.draft k.rest
        let q ← flowPairs handles bound false v.draft v.rest
        .ok { q with result := (k.result, v.result) :: q.result }
      | tokens => do
        let k ← node handles bound .flow d tokens
        let v := nothing k.draft k.rest
        let q ← flowPairs handles bound false v.draft v.rest
        .ok { q with result := (k.result, v.result) :: q.result }
end

end Node

/-! ### Documents -/

/-- A graph and the number of its outermost node. -/
structure Document where
  graph : Graph
  root : Nat

namespace Document

/-- Reads directives: the version, which is one point something, once, handles of tags once each.
Others say nothing. -/
def directives (version : Bool) (handles : Handles) : List Token →
    Except Trouble (Handles × List Token)
  | .directive (.version major _) :: rest =>
    if version || major != 1 then .error .malformed else directives true handles rest
  | .directive (.handle name target) :: rest =>
    if handles.any fun e => e.1 == name then .error .malformed
    else directives version ((name, target) :: handles) rest
  | .directive .unknown :: rest => directives version handles rest
  | rest => do
    Node.ready rest
    .ok (handles, rest)

/-- What may follow a document: its end, and nothing else. -/
def onlyEnds : List Token → Except Trouble Unit
  | [] => .ok ()
  | .documentEnd :: rest => onlyEnds rest
  | tokens => do
    let _ ← directives false [] tokens
    .error .malformed

/-- Reads the contents of a document behind its start. -/
def contents (handles : Handles) (tokens : List Token) : Except Trouble Document := do
  let p ← match tokens with
    | [] | .documentEnd :: _ | .documentStart :: _ | .directive .. :: _ => .ok (Node.nothing .empty tokens)
    | tokens => Node.node handles (4 * tokens.length + 4) .block .empty tokens
  onlyEnds p.rest
  .ok ⟨p.draft.graph, p.result⟩

/-- Reads a document that has a start, perhaps with directives before it. -/
def started (tokens : List Token) : Except Trouble Document := do
  let (handles, rest) ← directives false [] tokens
  match rest with
  | .documentStart :: rest => contents (handles ++ defaultHandles) rest
  | _ => .error .malformed

/-- The only document, if there is one. -/
def ofTokens (tokens : List Token) : Except Trouble (Option Document) :=
  match tokens with
  | [] => .ok none
  | .documentStart :: _ | .directive .. :: _ => do .ok (some (← started tokens))
  | .documentEnd :: _ => .error .malformed
  | tokens => do .ok (some (← contents defaultHandles tokens))

end Document
end Yaml
end ArgSchema
