/-
# The graph of a YAML document

A document is a graph of nodes that are known by number: scalars, sequences and
mappings. An anchor and its aliases are one node, so what is done to the node shows
wherever it stands.

Two keys are signs. The merge sign puts the pairs of other mappings before the pairs of
its own, and the sign for a default stands for its own text. `flatten` carries both
out in a mapping and in everything that it merges. A mapping that is read as a scalar is
the value under its sign for a default.

Key definitions:
* `NodeType`: what a node is made into.
* `Node`, `Graph`: nodes by number.
* `Graph.scalarValue`: the value of a node that is read as a scalar.
* `Graph.flatten`: carries out the signs among the keys of a mapping.
-/
import ArgSchema.Yaml.Resolve

namespace ArgSchema
namespace Yaml

/-- What a node is made into: a scalar, or a collection, which is filled later. The items of a
list of pairs are mappings of one pair each. -/
inductive NodeType where
  | scalar (type : ScalarType)
  | list | mapping | set | pairs
  deriving DecidableEq, Repr

/-- A node with its type, if it has one that is known; the type need not fit the node. -/
inductive Node where
  | scalar (type : Option NodeType) (text : String)
  | sequence (type : Option NodeType) (items : List Nat)
  | mapping (type : Option NodeType) (pairs : List (Nat × Nat))
  deriving DecidableEq, Repr

namespace Node

def type? : Node → Option NodeType
  | .scalar t _ | .sequence t _ | .mapping t _ => t

def withType (t : NodeType) : Node → Node
  | .scalar _ s => .scalar (some t) s
  | .sequence _ items => .sequence (some t) items
  | .mapping _ pairs => .mapping (some t) pairs

end Node

/-- Nodes by number. -/
structure Graph where
  nodes : Array Node
  deriving Repr

namespace Graph

def empty : Graph := ⟨#[]⟩

/-- The number of a new node, and the graph with it. -/
def add (g : Graph) (n : Node) : Nat × Graph := (g.nodes.size, ⟨g.nodes.push n⟩)

/-- Puts a node in the place of another. -/
def set (g : Graph) (id : Nat) (n : Node) : Graph := ⟨g.nodes.setIfInBounds id n⟩

/-- The pairs of a mapping; other nodes have none. -/
def pairs (g : Graph) (id : Nat) : List (Nat × Nat) :=
  match g.nodes[id]? with
  | some (.mapping _ pairs) => pairs
  | _ => []

/-- Gives a mapping other pairs. -/
def setPairs (g : Graph) (id : Nat) (pairs : List (Nat × Nat)) : Graph :=
  match g.nodes[id]? with
  | some (.mapping t _) => g.set id (.mapping t pairs)
  | _ => g

/-- The type of a node. -/
def type? (g : Graph) (id : Nat) : Option NodeType := g.nodes[id]?.bind Node.type?

/-- Whether a node is the sign that merges. -/
def isMerge (g : Graph) (id : Nat) : Bool := g.type? id == some (.scalar .merge)

/-- Whether a node is the sign for a default. -/
def isDefault (g : Graph) (id : Nat) : Bool := g.type? id == some (.scalar .default)

/-- Makes the sign for a default text; other nodes stay. -/
def quote (g : Graph) (id : Nat) : Graph :=
  match g.nodes[id]? with
  | some n => if g.isDefault id then g.set id (n.withType (.scalar .text)) else g
  | none => g

/-- The number of pairs in all mappings. -/
def pairCount (g : Graph) : Nat :=
  (g.nodes.toList.map fun n => match n with
    | .mapping _ pairs => pairs.length
    | _ => 0).foldl (· + ·) 0

/-- Removes the merge signs from a mapping and puts the pairs they stand for, after
`merged`, before its own. The mappings that are merged are flattened first; of a
sequence of mappings the last comes first. Every step removes a merge sign from the
graph, which bounds them. -/
def flattenFrom : (bound : Nat) → Graph → (id : Nat) → (merged : List (Nat × Nat)) → Except Trouble Graph
  | 0, _, _, _ => .error .malformed
  | bound + 1, g, id, merged =>
    let own := g.pairs id
    let before := own.takeWhile fun p => !g.isMerge p.1
    let quoted := before.foldl (fun g p => g.quote p.1) g
    match own.drop before.length with
    | [] => .ok (quoted.setPairs id (merged ++ own))
    | (_, source) :: after =>
      let g := quoted.setPairs id (before ++ after)
      match g.nodes[source]? with
      | some (.mapping ..) => do
        let g ← flattenFrom bound g source []
        flattenFrom bound g id (merged ++ g.pairs source)
      | some (.sequence _ items) => do
        let (g, parts) ← items.foldlM (fun (g, parts) item =>
          match g.nodes[item]? with
          | some (.mapping ..) => do
            let g ← flattenFrom bound g item []
            .ok (g, g.pairs item ++ parts)
          | _ => .error Trouble.malformed) (g, [])
        flattenFrom bound g id (merged ++ parts)
      | _ => .error .malformed

/-- Carries out the signs among the keys of a mapping. -/
def flatten (g : Graph) (id : Nat) : Except Trouble Graph := flattenFrom (g.pairCount + 1) g id []

/-- The text of a scalar; of a mapping the text under its sign for a default. -/
def textOf : (bound : Nat) → Graph → (id : Nat) → Option String
  | 0, _, _ => none
  | bound + 1, g, id =>
    match g.nodes[id]? with
    | some (.scalar _ s) => some s
    | some (.mapping _ pairs) => (pairs.find? fun p => g.isDefault p.1).bind fun p => textOf bound g p.2
    | _ => none

/-- The value of a node as a scalar of a type. A moment is only read from a node that is a scalar
itself. -/
def scalarValue (g : Graph) (t : ScalarType) (id : Nat) : Except Trouble Value :=
  match g.nodes[id]?, textOf (g.nodes.size + 1) g id with
  | some (.scalar ..), some s => t.valueOf s
  | some _, some s => if t = .timestamp then .error (.scalar .notAText) else t.valueOf s
  | _, _ => .error .malformed

end Graph
end Yaml
end ArgSchema
