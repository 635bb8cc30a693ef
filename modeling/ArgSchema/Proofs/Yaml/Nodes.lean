/-
# What stops the nodes of a YAML document

The readers of nodes go through the tokens from the front. A scalar stops them only where a
fault stands among the tokens (`Document.reads_ofTokens`); apart from that a document is
malformed, or it has its graph.

The readers call each other, each with a smaller bound, and so do the lemmas about them. What
is passed on is that the tokens behind a node are some of those before it (`Node.Parses`).

Key definitions: `Node.Parses`.
-/
import ArgSchema.Yaml.Node
import ArgSchema.Proofs.Yaml.Tokens

namespace ArgSchema
namespace Yaml

/-- What stops at a fault among some tokens stops at one among more of them. -/
theorem Reads.among {α : Type} {P : α → Prop} {ts tokens : List Token} {x : Except Trouble α}
    (h : Reads P (fun f => .fault f ∈ ts) x) (hts : ts ⊆ tokens) : Reads P (fun f => .fault f ∈ tokens) x :=
  h.mono (fun _ hp => hp) fun _ hf => hts hf

namespace Node

/-- A reader of tokens goes on behind some of them, and only a fault among them stops it. -/
abbrev Parses {α : Type} (tokens : List Token) (x : Except Trouble (Progress α)) : Prop :=
  Reads (fun p => p.rest ⊆ tokens) (fun f => .fault f ∈ tokens) x

theorem Parses.mono {α : Type} {ts tokens : List Token} {x : Except Trouble (Progress α)} (h : Parses ts x)
    (hts : ts ⊆ tokens) : Parses tokens x :=
  Reads.mono h (fun _ hp => List.Subset.trans hp hts) fun _ hf => hts hf

/-- The tokens behind the first of some. -/
theorem behind {t : Token} {ts tokens : List Token} (h : t :: ts ⊆ tokens) : ts ⊆ tokens :=
  (List.cons_subset.mp h).2

theorem reads_ready (tokens : List Token) :
    Reads (fun _ => True) (fun f => Token.fault f ∈ tokens) (ready tokens) := by
  unfold ready
  split
  · exact List.mem_cons_self
  · trivial

theorem reads_resolveTag (handles : Handles) (handle : Option String) (suffix : String)
    (Q : ScalarFault → Prop) : Reads (fun _ => True) Q (resolveTag handles handle suffix) := by
  unfold resolveTag
  split
  · trivial
  · split <;> trivial

theorem reads_marks (handles : Handles) (tokens : List Token) :
    Reads (fun p => p.2 ⊆ tokens) (fun f => Token.fault f ∈ tokens) (marks handles tokens) := by
  unfold marks
  split
  · exact .bind (reads_resolveTag _ _ _ _) fun _ _ => behind (List.subset_cons_self _ _)
  · exact List.subset_cons_self _ _
  · exact .bind (reads_resolveTag _ _ _ _) fun _ _ => behind (List.subset_cons_self _ _)
  · rename_i rest _
    refine .bind ((reads_ready rest).among (List.subset_cons_self _ _)) fun _ _ => ?_
    exact .bind (reads_resolveTag _ _ _ _) fun _ _ => List.subset_cons_self _ _
  · exact List.Subset.refl _

theorem reads_nextEntry (first : Bool) (tokens : List Token) :
    Reads (fun ts => ts ⊆ tokens) (fun f => Token.fault f ∈ tokens) (nextEntry first tokens) := by
  unfold nextEntry
  refine .bind (reads_ready tokens) fun _ _ => .ite (List.Subset.refl _) ?_
  split
  · rename_i rest
    exact .bind ((reads_ready rest).among (List.subset_cons_self _ _)) fun _ _ =>
      List.subset_cons_self _ _
  · exact Reads.malformed

theorem parses_collection {α : Type} {tokens : List Token} (d : Draft) (anchor : Option String)
    (make : List α → Node) {parts : Draft → Except Trouble (Progress (List α))} (h : ∀ d, Parses tokens (parts d)) :
    Parses tokens (collection d anchor make parts) :=
  .bind (h _) fun _ hp => .ok hp

mutual

theorem parses_node (handles : Handles) : ∀ (bound : Nat) (place : Place) (d : Draft) (tokens : List Token),
    Parses tokens (node handles bound place d tokens)
  | 0, _, _, _ => Reads.malformed
  | bound + 1, place, d, tokens => by
    unfold node
    split
    · split
      · exact .ok (List.subset_cons_self _ _)
      · exact Reads.malformed
    · refine .bind (reads_marks handles tokens) fun p hp => ?_
      obtain ⟨m, ts⟩ := p
      refine .bind ((reads_ready ts).among hp) fun _ _ => .ite Reads.malformed ?_
      have hbehind : ∀ {t : Token} {rest : List Token}, ts = t :: rest → rest ⊆ tokens := by
        rintro t rest rfl
        exact behind hp
      split
      · exact parses_collection _ _ _ fun d => (parses_entries handles bound _ _ _).mono hp
      · exact .ok (hbehind rfl)
      · exact parses_collection _ _ _ fun d => (parses_flowItems handles bound _ _ _).mono (hbehind rfl)
      · exact parses_collection _ _ _ fun d => (parses_flowPairs handles bound _ _ _).mono (hbehind rfl)
      · exact parses_collection _ _ _ fun d => (parses_entries handles bound _ _ _).mono (hbehind rfl)
      · exact parses_collection _ _ _ fun d => (parses_entries handles bound _ _ _).mono (hbehind rfl)
      · exact parses_collection _ _ _ fun d => (parses_pairs handles bound _ _).mono (hbehind rfl)
      · exact parses_collection _ _ _ fun d => (parses_pairs handles bound _ _).mono (hbehind rfl)
      · exact .ite Reads.malformed (.ok hp)

theorem parses_nodeUnless (handles : Handles) : ∀ (bound : Nat) (place : Place) (ends : List Token) (d : Draft)
    (tokens : List Token), Parses tokens (nodeUnless handles bound place ends d tokens)
  | 0, _, _, _, _ => Reads.malformed
  | bound + 1, place, ends, d, tokens => by
    unfold nodeUnless
    exact .ite (.ok (List.Subset.refl _)) (parses_node handles bound _ _ _)

theorem parses_valueOf (handles : Handles) : ∀ (bound : Nat) (place : Place) (ends : List Token) (d : Draft)
    (tokens : List Token), Parses tokens (valueOf handles bound place ends d tokens)
  | 0, _, _, _, _ => Reads.malformed
  | bound + 1, place, ends, d, tokens => by
    unfold valueOf
    refine .bind (reads_ready tokens) fun _ _ => ?_
    split
    · exact (parses_nodeUnless handles bound _ _ _ _).mono (List.subset_cons_self _ _)
    · exact .ok (List.Subset.refl _)

theorem parses_entries (handles : Handles) : ∀ (bound : Nat) (bare : Bool) (d : Draft) (tokens : List Token),
    Parses tokens (entries handles bound bare d tokens)
  | 0, _, _, _ => Reads.malformed
  | bound + 1, bare, d, tokens => by
    unfold entries
    refine .bind (reads_ready tokens) fun _ _ => ?_
    split
    · refine .bind ((parses_nodeUnless handles bound _ _ _ _).mono (List.subset_cons_self _ _)) fun p hp => ?_
      exact .bind ((parses_entries handles bound _ _ _).mono hp) fun _ hq => .ok hq
    · refine .ite (.ok (List.Subset.refl _)) ?_
      split
      · exact .ok (List.subset_cons_self _ _)
      · exact Reads.malformed

theorem parses_pairs (handles : Handles) : ∀ (bound : Nat) (d : Draft) (tokens : List Token),
    Parses tokens (pairs handles bound d tokens)
  | 0, _, _ => Reads.malformed
  | bound + 1, d, tokens => by
    unfold pairs
    refine .bind (reads_ready tokens) fun _ _ => ?_
    split
    · exact .ok (List.subset_cons_self _ _)
    · refine .bind ((parses_nodeUnless handles bound _ _ _ _).mono (List.subset_cons_self _ _)) fun k hk => ?_
      refine .bind ((parses_valueOf handles bound _ _ _ _).mono hk) fun v hv => ?_
      exact .bind ((parses_pairs handles bound _ _).mono hv) fun _ hq => .ok hq
    · exact Reads.malformed

theorem parses_flowItems (handles : Handles) : ∀ (bound : Nat) (first : Bool) (d : Draft) (tokens : List Token),
    Parses tokens (flowItems handles bound first d tokens)
  | 0, _, _, _ => Reads.malformed
  | bound + 1, first, d, tokens => by
    unfold flowItems
    split
    · exact .ok (List.subset_cons_self _ _)
    · refine .bind (reads_nextEntry first tokens) fun ts hts => ?_
      split
      · exact .ok (behind hts)
      · refine .bind ((parses_nodeUnless handles bound _ _ _ _).mono (behind hts)) fun k hk => ?_
        refine .bind ((parses_valueOf handles bound _ _ _ _).mono hk) fun v hv => ?_
        exact .bind ((parses_flowItems handles bound _ _ _).mono hv) fun _ hq => .ok hq
      · refine .bind ((parses_node handles bound _ _ _).mono hts) fun p hp => ?_
        exact .bind ((parses_flowItems handles bound _ _ _).mono hp) fun _ hq => .ok hq

theorem parses_flowPairs (handles : Handles) : ∀ (bound : Nat) (first : Bool) (d : Draft) (tokens : List Token),
    Parses tokens (flowPairs handles bound first d tokens)
  | 0, _, _, _ => Reads.malformed
  | bound + 1, first, d, tokens => by
    unfold flowPairs
    split
    · exact .ok (List.subset_cons_self _ _)
    · refine .bind (reads_nextEntry first tokens) fun ts hts => ?_
      split
      · exact .ok (behind hts)
      · refine .bind ((parses_nodeUnless handles bound _ _ _ _).mono (behind hts)) fun k hk => ?_
        refine .bind ((parses_valueOf handles bound _ _ _ _).mono hk) fun v hv => ?_
        exact .bind ((parses_flowPairs handles bound _ _ _).mono hv) fun _ hq => .ok hq
      · refine .bind ((parses_node handles bound _ _ _).mono hts) fun k hk => ?_
        exact .bind ((parses_flowPairs handles bound _ _ _).mono hk) fun _ hq => .ok hq

end

end Node

/-! ### Documents -/

namespace Document

theorem reads_directives (tokens : List Token) : ∀ (version : Bool) (handles : Handles),
    Reads (fun p => p.2 ⊆ tokens) (fun f => Token.fault f ∈ tokens) (directives version handles tokens) := by
  induction tokens with
  | nil => exact fun _ _ => List.Subset.refl _
  | cons t rest ih =>
    intro version handles
    have hrest : ∀ (version : Bool) (handles : Handles), Reads (fun p => p.2 ⊆ t :: rest)
        (fun f => Token.fault f ∈ t :: rest) (directives version handles rest) := fun version handles =>
      (ih version handles).mono (fun _ => List.subset_cons_of_subset t) fun _ hf => List.mem_cons_of_mem _ hf
    unfold directives
    split
    · rename_i heq
      obtain ⟨-, rfl⟩ := List.cons.inj heq
      exact .ite Reads.malformed (hrest _ _)
    · rename_i heq
      obtain ⟨-, rfl⟩ := List.cons.inj heq
      exact .ite Reads.malformed (hrest _ _)
    · rename_i heq
      obtain ⟨-, rfl⟩ := List.cons.inj heq
      exact hrest _ _
    · exact .bind (Node.reads_ready _) fun _ _ => List.Subset.refl _

theorem reads_onlyEnds (tokens : List Token) :
    Reads (fun _ => True) (fun f => Token.fault f ∈ tokens) (onlyEnds tokens) := by
  induction tokens with
  | nil => trivial
  | cons t rest ih =>
    unfold onlyEnds
    split
    · trivial
    · rename_i heq
      obtain ⟨-, rfl⟩ := List.cons.inj heq
      exact ih.among (List.subset_cons_self _ _)
    · exact .bind (reads_directives _ _ _) fun _ _ => Reads.malformed

theorem reads_contents (handles : Handles) (tokens : List Token) :
    Reads (fun _ => True) (fun f => Token.fault f ∈ tokens) (contents handles tokens) := by
  have hend : ∀ p : Progress Nat, p.rest ⊆ tokens → Reads (fun _ => True) (fun f => Token.fault f ∈ tokens) (do
      onlyEnds p.rest
      .ok (Document.mk p.draft.graph p.result)) := fun p hp =>
    .bind ((reads_onlyEnds _).among hp) fun _ _ => trivial
  have hnothing : Node.Parses tokens (.ok (Node.nothing .empty tokens)) := .ok (List.Subset.refl _)
  unfold contents
  simp only
  split
  · exact .bind hnothing hend
  · exact .bind hnothing hend
  · exact .bind hnothing hend
  · exact .bind hnothing hend
  · exact .bind (Node.parses_node _ _ _ _ _) hend

theorem reads_started (tokens : List Token) :
    Reads (fun _ => True) (fun f => Token.fault f ∈ tokens) (started tokens) := by
  refine .bind (reads_directives tokens _ _) fun p hp => ?_
  obtain ⟨handles, rest⟩ := p
  simp only
  split
  · exact (reads_contents _ _).among (Node.behind hp)
  · exact Reads.malformed

theorem reads_ofTokens (tokens : List Token) :
    Reads (fun _ => True) (fun f => Token.fault f ∈ tokens) (ofTokens tokens) := by
  unfold ofTokens
  split
  · trivial
  · exact .bind (reads_started _) fun _ _ => trivial
  · exact .bind (reads_started _) fun _ _ => trivial
  · exact Reads.malformed
  · exact .bind (reads_contents _ _) fun _ _ => trivial

end Document

end Yaml
end ArgSchema
