/-
# The value of a YAML document

Sequences become lists and mappings become mappings in which the last of equal keys
counts, unless a tag makes a set or a list of pairs of them. Keys of mappings have to be
read as scalars.

A document can go wrong at several nodes. They are visited level by level, from the
outside in: a scalar is read when it is met, and a collection waits for its turn. It is
then that its kind has to fit its type, and that a mapping is flattened before its keys
and values are met. The first thing that goes wrong decides.

Key definitions:
* `Visit`: the nodes met so far.
* `Graph.visit`: the visit of everything that can be reached from a node.
* `Visit.value`: the value of a node that was visited.
* `Document.value`: the value of a document.
-/
import ArgSchema.Yaml.Node
import ArgSchema.Value.Members

namespace ArgSchema
namespace Yaml

/-! ### What goes wrong first -/

/-- A visit of a graph: the graph as it is by now, the nodes that were met, the values of
the scalars among them, and the collections among them whose parts were not met yet. -/
structure Visit where
  graph : Graph
  met : List Nat
  scalars : List (Nat × Value)
  waiting : List Nat

namespace Visit

/-- Meets a node. A scalar has to have a value; a collection waits for its turn. -/
def meet (v : Visit) (id : Nat) : Except Trouble Visit :=
  if v.met.contains id then .ok v
  else
    let next := { v with met := id :: v.met }
    match v.graph.type? id with
    | some (.scalar t) => do .ok { next with scalars := (id, ← v.graph.scalarValue t id) :: v.scalars }
    | some _ => .ok { next with waiting := v.waiting ++ [id] }
    | none => .error .malformed

/-- Meets a key and its value. A key is read as a scalar. -/
def meetPair (v : Visit) (p : Nat × Nat) : Except Trouble Visit := do
  let met ← v.meet p.1
  match v.graph.type? p.1 with
  | some (.scalar _) => met.meet p.2
  | _ => .error .malformed

/-- Meets the only pair of a mapping. Here the key may be any node. -/
def meetOnlyPair (v : Visit) (id : Nat) : Except Trouble Visit := do
  match v.graph.nodes[id]? with
  | some (.mapping _ [(k, x)]) => (← v.meet k).meet x
  | _ => .error .malformed

/-- Meets the parts of a collection. -/
def enter (v : Visit) (id : Nat) : Except Trouble Visit := do
  match v.graph.nodes[id]? with
  | some (.sequence (some .list) items) => items.foldlM meet v
  | some (.sequence (some .pairs) items) => items.foldlM meetOnlyPair v
  | some (.mapping (some .mapping) _) | some (.mapping (some .set) _) =>
    let g ← v.graph.flatten id
    (g.pairs id).foldlM meetPair { v with graph := g }
  | _ => .error .malformed

/-- Enters the collections that wait, in order. Each of them waits only once, which
bounds their number. -/
def run : (bound : Nat) → Visit → Except Trouble Visit
  | 0, _ => .error .malformed
  | bound + 1, v =>
    match v.waiting with
    | [] => .ok v
    | id :: rest => do run bound (← { v with waiting := rest }.enter id)

end Visit

/-- Visits everything that can be reached from a node. -/
def Graph.visit (g : Graph) (root : Nat) : Except Trouble Visit := do
  (← Visit.meet ⟨g, [], [], []⟩ root).run (g.nodes.size + 1)

/-! ### Values -/

/-- Puts a node under a key: an equal key that is there keeps its place. -/
def putUnder (k : Value) (id : Nat) : List (Value × Nat) → List (Value × Nat)
  | [] => [(k, id)]
  | (k', id') :: rest =>
    if k.key.toOption.any k'.hasKey then (k', id) :: rest else (k', id') :: putUnder k id rest

namespace Visit

/-- The keys of a mapping, each with the last node that stands under it; `value` gives the
values of nodes. -/
def keyed (value : Nat → Except Trouble Value) (pairs : List (Nat × Nat)) :
    Except Trouble (List (Value × Nat)) := do
  let keys ← pairs.mapM fun (k, x) => do .ok (← value k, x)
  .ok (keys.foldl (fun es (k, x) => putUnder k x es) [])

/-- The value of a node that was visited. Of nodes under equal keys only the last is looked
at. A node that holds itself has no value. -/
def value (v : Visit) : (bound : Nat) → (id : Nat) → Except Trouble Value
  | 0, _ => .error .malformed
  | bound + 1, id =>
    match v.scalars.lookup id, v.graph.nodes[id]? with
    | some a, _ => .ok a
    | none, some (.sequence (some .list) items) => do .ok (.ofList (← items.mapM (v.value bound)))
    | none, some (.sequence (some .pairs) items) => do
      .ok (.ofList (← items.mapM fun item =>
        match v.graph.pairs item with
        | [(k, x)] => do .ok (.ofTuple [← v.value bound k, ← v.value bound x])
        | _ => .error .malformed))
    | none, some (.mapping (some .set) pairs) => do
      .ok (.collection .set 0 (Value.keysInPlaces ((← keyed (v.value bound) pairs).map Prod.fst)))
    | none, some (.mapping (some .mapping) pairs) => do
      .ok (.ofEntries (← (← keyed (v.value bound) pairs).mapM fun (k, x) => do .ok (k, ← v.value bound x)))
    | none, _ => .error .malformed

end Visit

/-- The value of a document. -/
def Document.value (d : Document) : Except Trouble Value := do
  let v ← d.graph.visit d.root
  v.value (d.graph.nodes.size + 1) d.root

end Yaml
end ArgSchema
