/-
# What stops the value of a YAML document

A document has a value unless it is malformed or a node of it, read as a scalar, has a text
without a value. While mappings are merged, pairs are moved and signs become texts, so no node
comes to be that can be blamed later (`Graph.Keeps`); while nodes are met, the first one without
a value stops all, and what is left to do cannot fail in this way.

With what stops the tokens this says why the reading of a text stops: at an escape, at a node of
the document, or because the text is malformed (`reads_readYaml`).

Key definitions: `Graph.Blames`, `Graph.Keeps`, `Unreadable`.
-/
import ArgSchema.Yaml.Reader
import ArgSchema.Proofs.Yaml.Nodes
import ArgSchema.Proofs.PlainData

namespace ArgSchema

open Value

/-! ### Members of sets -/

/-- What holds of every member of a table. -/
def Places.All (t : Places) (P : Value → Prop) : Prop := ∀ m, some m ∈ t.slots → P m.2

namespace Places

variable {t : Places} {P : Value → Prop}

theorem all_ofMoreThan (n : Nat) : (ofMoreThan n).All P := by
  intro m hm
  simp [ofMoreThan] at hm

theorem All.settle (h : t.All P) {m : UInt64 × Value} (hm : P m.2) : (t.settle m).All P := by
  intro m' hm'
  rcases Array.mem_or_eq_of_mem_setIfInBounds hm' with hm' | hm'
  · exact h m' hm'
  · rw [Option.some.inj hm']
    exact hm

theorem All.foldl {step : Places → UInt64 × Value → Places}
    (hstep : ∀ {t : Places}, t.All P → ∀ {m : UInt64 × Value}, P m.2 → (step t m).All P)
    {ms : List (UInt64 × Value)} (h : t.All P) (hms : ∀ m ∈ ms, P m.2) : (ms.foldl step t).All P := by
  induction ms generalizing t with
  | nil => exact h
  | cons m ms ih =>
    exact ih (hstep h (hms m List.mem_cons_self)) fun m hm => hms m (List.mem_cons_of_mem _ hm)

theorem All.toList (h : t.All P) : ∀ m ∈ t.toList, P m.2 := by
  intro m hm
  obtain ⟨slot, hslot, rfl⟩ := List.mem_filterMap.mp hm
  exact h m (Array.mem_toList_iff.mp hslot)

theorem All.insert (h : t.All P) {m : UInt64 × Value} (hm : P m.2) : (t.insert m).All P := by
  have hsettled := h.settle hm
  unfold Places.insert
  simp only
  split
  · exact hsettled
  · exact .foldl All.settle (all_ofMoreThan _) hsettled.toList

end Places

/-- Keys stay what they are in a set. -/
theorem keysInPlaces_all {P : Value → Prop} {keys : List Value} (h : ∀ k ∈ keys, P k) :
    ∀ k ∈ keysInPlaces keys, P k := by
  unfold keysInPlaces inPlacesOf
  split
  · rename_i codes _
    have hmembers : ∀ m ∈ codes.zip keys, P m.2 := fun m hm => h _ (List.of_mem_zip hm).2
    intro k hk
    obtain ⟨m, hm, rfl⟩ := List.mem_map.mp hk
    exact (Places.All.foldl .insert (Places.all_ofMoreThan _) hmembers).toList m hm
  · exact h

namespace Yaml

/-! ### Graphs -/

/-- A node becomes another of its kind, with the same text, and at most its type becomes text. -/
def Node.Becomes : Node → Node → Prop
  | .scalar t s, .scalar t' s' => s' = s ∧ (t' = t ∨ t' = some (.scalar .text))
  | .sequence t _, .sequence t' _ => t' = t ∨ t' = some (.scalar .text)
  | .mapping t _, .mapping t' _ => t' = t ∨ t' = some (.scalar .text)
  | _, _ => False

namespace Node

theorem Becomes.refl (n : Node) : n.Becomes n := by
  cases n with
  | scalar => exact ⟨rfl, .inl rfl⟩
  | sequence => exact .inl rfl
  | mapping => exact .inl rfl

theorem Becomes.trans {n n' n'' : Node} (h : n.Becomes n') (h' : n'.Becomes n'') : n.Becomes n'' := by
  cases n <;> cases n' <;> first | exact h.elim | skip
  all_goals cases n'' <;> first | exact h'.elim | skip
  · exact ⟨h'.1.trans h.1, h'.2.elim (fun ht => ht ▸ h.2) .inr⟩
  · exact h'.elim (fun ht => ht ▸ h) .inr
  · exact h'.elim (fun ht => ht ▸ h) .inr

theorem becomes_text (n : Node) : n.Becomes (n.withType (.scalar .text)) := by
  cases n with
  | scalar => exact ⟨rfl, .inr rfl⟩
  | sequence => exact .inr rfl
  | mapping => exact .inr rfl

/-- What becomes a scalar without a value was that scalar: a text has a value. -/
theorem Becomes.scalar {n : Node} {t : ScalarType} {s s' : String} {e : Trouble}
    (h : n.Becomes (.scalar (some (.scalar t)) s)) (hvalue : t.valueOf s' = .error e) :
    n = .scalar (some (.scalar t)) s := by
  cases n with
  | scalar =>
    obtain ⟨rfl, rfl | ht⟩ := h
    · rfl
    · cases ht
      cases hvalue
  | sequence => exact h.elim
  | mapping => exact h.elim

theorem Becomes.anyScalar {n : Node} {t : Option NodeType} {s : String} (h : n.Becomes (.scalar t s)) :
    ∃ t, n = .scalar t s := by
  cases n with
  | scalar => exact ⟨_, by rw [h.1]⟩
  | sequence => exact h.elim
  | mapping => exact h.elim

theorem Becomes.mapping {n : Node} {t : ScalarType} {pairs : List (Nat × Nat)}
    (h : n.Becomes (.mapping (some (.scalar t)) pairs)) (ht : t ≠ .text) :
    ∃ pairs, n = .mapping (some (.scalar t)) pairs := by
  cases n with
  | scalar => exact h.elim
  | sequence => exact h.elim
  | mapping =>
    obtain rfl | hmade := h
    · exact ⟨_, rfl⟩
    · cases hmade
      exact absurd rfl ht

end Node

namespace Graph

/-- A node of a graph has no value, with this fault. -/
inductive Blames (g : Graph) (f : ScalarFault) : Prop where
  /-- A scalar has a text without a value. -/
  | scalar {t : ScalarType} {s : String} (hnode : .scalar (some (.scalar t)) s ∈ g.nodes)
      (hvalue : t.valueOf s = .error (.scalar f))
  /-- A mapping is read as a scalar, and a scalar of the document is its text. -/
  | mapping {t : ScalarType} {pairs : List (Nat × Nat)} {own : Option NodeType} {s : String}
      (hnode : .mapping (some (.scalar t)) pairs ∈ g.nodes) (htext : .scalar own s ∈ g.nodes)
      (hvalue : t.valueOf s = .error (.scalar f))
  /-- A mapping is read as a moment. -/
  | moment {pairs : List (Nat × Nat)} (hnode : .mapping (some (.scalar .timestamp)) pairs ∈ g.nodes)
      (hfault : f = .notAText)

/-- Every node of a graph has become of one that was there before. -/
def Keeps (g g' : Graph) : Prop := ∀ n' ∈ g'.nodes, ∃ n ∈ g.nodes, n.Becomes n'

theorem Keeps.refl (g : Graph) : Keeps g g := fun n hn => ⟨n, hn, .refl n⟩

theorem Keeps.trans {g g' g'' : Graph} (h : Keeps g g') (h' : Keeps g' g'') : Keeps g g'' := by
  intro n'' hn''
  obtain ⟨n', hn', hbecomes'⟩ := h' n'' hn''
  obtain ⟨n, hn, hbecomes⟩ := h n' hn'
  exact ⟨n, hn, hbecomes.trans hbecomes'⟩

/-- What is to blame later was to blame before. -/
theorem Keeps.blames {g g' : Graph} (h : Keeps g g') {f : ScalarFault} (hf : Blames g' f) : Blames g f := by
  cases hf with
  | scalar hnode hvalue =>
    obtain ⟨n, hn, hbecomes⟩ := h _ hnode
    obtain rfl := hbecomes.scalar hvalue
    exact .scalar hn hvalue
  | @mapping t pairs own s hnode htext hvalue =>
    have ht : t ≠ .text := by
      rintro rfl
      cases hvalue
    obtain ⟨n, hn, hbecomes⟩ := h _ hnode
    obtain ⟨pairs, rfl⟩ := hbecomes.mapping ht
    obtain ⟨m, hm, hbecomes⟩ := h _ htext
    obtain ⟨own, rfl⟩ := hbecomes.anyScalar
    exact .mapping hn hm hvalue
  | moment hnode hfault =>
    obtain ⟨n, hn, hbecomes⟩ := h _ hnode
    obtain ⟨pairs, rfl⟩ := hbecomes.mapping (by decide)
    exact .moment hn hfault

theorem keeps_set {g : Graph} {id : Nat} {n n' : Node} (hn : g.nodes[id]? = some n) (hbecomes : n.Becomes n') :
    Keeps g (g.set id n') := by
  intro m hm
  rcases Array.mem_or_eq_of_mem_setIfInBounds hm with hm | rfl
  · exact ⟨m, hm, .refl m⟩
  · exact ⟨n, Array.mem_of_getElem? hn, hbecomes⟩

theorem keeps_setPairs (g : Graph) (id : Nat) (pairs : List (Nat × Nat)) : Keeps g (g.setPairs id pairs) := by
  unfold setPairs
  split
  · rename_i hn
    exact keeps_set hn (.inl rfl)
  · exact .refl g

theorem keeps_quote (g : Graph) (id : Nat) : Keeps g (g.quote id) := by
  unfold quote
  split
  · rename_i n hn
    split
    · exact keeps_set hn n.becomes_text
    · exact .refl g
  · exact .refl g

theorem keeps_quoteAll : ∀ (pairs : List (Nat × Nat)) (g : Graph),
    Keeps g (pairs.foldl (fun g p => g.quote p.1) g)
  | [], g => .refl g
  | p :: pairs, g => (keeps_quote g p.1).trans (keeps_quoteAll pairs _)

/-- Merging moves pairs and makes signs into texts. -/
theorem reads_flattenFrom : ∀ (bound : Nat) (g : Graph) (id : Nat) (merged : List (Nat × Nat)),
    Reads (Keeps g) (fun _ => False) (flattenFrom bound g id merged)
  | 0, _, _, _ => Reads.malformed
  | bound + 1, g, id, merged => by
    have hquoted := keeps_quoteAll ((g.pairs id).takeWhile fun p => !g.isMerge p.1) g
    have hagain : ∀ {g' : Graph}, Keeps g g' → ∀ id merged,
        Reads (Keeps g) (fun _ => False) (flattenFrom bound g' id merged) :=
      fun hg' id merged => (reads_flattenFrom bound _ id merged).mono (fun _ => hg'.trans) fun _ => False.elim
    unfold flattenFrom
    simp only
    split
    · exact .ok (hquoted.trans (keeps_setPairs _ _ _))
    · rename_i source after _
      have hpairs := hquoted.trans (keeps_setPairs _ id (((g.pairs id).takeWhile fun p => !g.isMerge p.1) ++ after))
      split
      · exact .bind (hagain hpairs source []) fun g' hg' => hagain hg' id _
      · rename_i items _
        refine .bind (P := fun p : Graph × List (Nat × Nat) => Keeps g p.1) (.foldlM hpairs ?_) fun p hp =>
          hagain hp id _
        intro p hp item _
        split
        · exact .bind (hagain hp item []) fun g' hg' => .ok hg'
        · exact Reads.malformed
      · exact Reads.malformed

theorem reads_flatten (g : Graph) (id : Nat) : Reads (Keeps g) (fun _ => False) (g.flatten id) :=
  reads_flattenFrom _ _ _ _

end Graph

/-! ### Scalars -/

theorem measured_timestampOf {cs : List Char} {v : Value} (h : ScalarType.timestampOf cs = .ok (some v)) :
    Measured v := by
  unfold ScalarType.timestampOf at h
  split at h
  · cases h
  · split at h
    · split at h
      · cases h
      · obtain rfl := Option.some.inj (Except.ok.inj h)
        exact measured_atom ⟨_, rfl⟩
    · simp only at h
      split at h
      · cases h
      · obtain rfl := Option.some.inj (Except.ok.inj h)
        exact measured_atom ⟨_, rfl⟩

theorem measured_valueOf {t : ScalarType} {s : String} {v : Value} (h : t.valueOf s = .ok v) : Measured v := by
  unfold ScalarType.valueOf at h
  cases t with
  | null =>
    obtain rfl := Except.ok.inj h
    exact measured_atom ⟨_, rfl⟩
  | bool =>
    simp only at h
    split at h
    · obtain rfl := Except.ok.inj h
      exact measured_atom ⟨_, rfl⟩
    · split at h
      · obtain rfl := Except.ok.inj h
        exact measured_atom ⟨_, rfl⟩
      · cases h
  | int =>
    obtain ⟨n, -, hv⟩ := bind_eq_ok.mp h
    obtain rfl := Except.ok.inj hv
    exact measured_atom ⟨_, rfl⟩
  | float =>
    obtain ⟨x, -, hv⟩ := bind_eq_ok.mp h
    obtain rfl := Except.ok.inj hv
    exact measured_atom ⟨_, rfl⟩
  | timestamp =>
    obtain ⟨stamp, hstamp, hv⟩ := bind_eq_ok.mp h
    cases stamp with
    | none => cases hv
    | some w =>
      obtain rfl := Except.ok.inj hv
      cases hr : ScalarType.timestampOf s.toList with
      | error f => simp [hr, Except.mapError] at hstamp
      | ok r =>
        obtain rfl : r = some w := by simpa [hr, Except.mapError] using hstamp
        exact measured_timestampOf hr
  | binary =>
    simp only at h
    split at h
    · obtain rfl := Except.ok.inj h
      exact measured_atom ⟨_, rfl⟩
    · cases h
  | text =>
    obtain rfl := Except.ok.inj h
    exact measured_atom ⟨_, rfl⟩
  | merge => cases h
  | default => cases h

theorem reads_valueOf {t : ScalarType} {s : String} {Q : ScalarFault → Prop}
    (h : ∀ f, t.valueOf s = .error (.scalar f) → Q f) : Reads Measured Q (t.valueOf s) := by
  cases hvalue : t.valueOf s with
  | ok a => exact .ok (measured_valueOf hvalue)
  | error e =>
    cases e with
    | malformed => exact Reads.malformed
    | scalar f => exact .error (h f hvalue)

namespace Graph

theorem mem_textOf {g : Graph} : ∀ {bound id : Nat} {s : String}, textOf bound g id = some s →
    ∃ t, .scalar t s ∈ g.nodes
  | 0, _, _, h => by cases h
  | bound + 1, id, s, h => by
    unfold textOf at h
    split at h
    · rename_i t s' hnode
      obtain rfl := Option.some.inj h
      exact ⟨t, Array.mem_of_getElem? hnode⟩
    · obtain ⟨p, -, h⟩ := Option.bind_eq_some_iff.mp h
      exact mem_textOf h
    · cases h

/-- A node that is read as a scalar has a value, or it is to blame. -/
theorem reads_scalarValue {g : Graph} {t : ScalarType} {id : Nat} (ht : g.type? id = some (.scalar t)) :
    Reads Measured (Blames g) (g.scalarValue t id) := by
  unfold scalarValue
  split
  · rename_i own s s' hnode htext
    have hown : own = some (.scalar t) := by simpa [type?, hnode, Node.type?] using ht
    have hs : s = s' := by simpa [textOf, hnode] using htext
    obtain rfl := hown
    obtain rfl := hs
    exact reads_valueOf fun f hvalue => .scalar (Array.mem_of_getElem? hnode) hvalue
  · rename_i n s hscalar hnode htext
    have hmapping : ∃ pairs, n = .mapping (some (.scalar t)) pairs := by
      cases n with
      | scalar own s => exact absurd rfl (hscalar own s)
      | sequence => simp [textOf, hnode] at htext
      | mapping own pairs => exact ⟨pairs, by simpa [type?, hnode, Node.type?] using ht⟩
    obtain ⟨pairs, rfl⟩ := hmapping
    have hmem := Array.mem_of_getElem? hnode
    split
    · rename_i htimestamp
      exact .error (.moment (htimestamp ▸ hmem) rfl)
    · obtain ⟨own, hscalar⟩ := mem_textOf htext
      exact reads_valueOf fun f hvalue => .mapping hmem hscalar hvalue
  · exact Reads.malformed

end Graph

/-! ### Visits -/

namespace Visit

/-- The scalars that were read have lengths at every depth. -/
def Measures (v : Visit) : Prop := ∀ e ∈ v.scalars, Measured e.2

/-- A visit goes on with a graph that keeps the nodes, and only one of these stops it. -/
abbrev Visits (g : Graph) (x : Except Trouble Visit) : Prop :=
  Reads (fun v => g.Keeps v.graph ∧ v.Measures) g.Blames x

/-- One visit after another. -/
theorem visits_bind {g : Graph} {x : Except Trouble Visit} {step : Visit → Except Trouble Visit} (hx : Visits g x)
    (hstep : ∀ w : Visit, w.Measures → Visits w.graph (step w)) : Visits g (x >>= step) :=
  .bind hx fun w hw => (hstep w hw.2).mono (fun _ hv => ⟨hw.1.trans hv.1, hv.2⟩) fun _ => hw.1.blames

theorem visits_foldlM {α : Type} {step : Visit → α → Except Trouble Visit}
    (hstep : ∀ v x, v.Measures → Visits v.graph (step v x)) : ∀ (xs : List α) {v : Visit}, v.Measures →
    Visits v.graph (xs.foldlM step v)
  | [], _, hv => .ok ⟨.refl _, hv⟩
  | x :: xs, v, hv => by
    rw [List.foldlM_cons]
    exact visits_bind (hstep v x hv) fun w hw => visits_foldlM hstep xs hw

theorem visits_meet (v : Visit) (id : Nat) (hv : v.Measures) : Visits v.graph (v.meet id) := by
  unfold meet
  refine .ite (.ok ⟨.refl _, hv⟩) ?_
  simp only
  split
  · rename_i t ht
    refine .bind (Graph.reads_scalarValue ht) fun a ha => .ok ⟨.refl _, ?_⟩
    exact List.forall_mem_cons.mpr ⟨ha, hv⟩
  · exact .ok ⟨.refl _, hv⟩
  · exact Reads.malformed

theorem visits_meetPair (v : Visit) (p : Nat × Nat) (hv : v.Measures) : Visits v.graph (v.meetPair p) := by
  unfold meetPair
  refine visits_bind (visits_meet v p.1 hv) fun w hw => ?_
  split
  · exact visits_meet w p.2 hw
  · exact Reads.malformed

theorem visits_meetOnlyPair (v : Visit) (id : Nat) (hv : v.Measures) : Visits v.graph (v.meetOnlyPair id) := by
  unfold meetOnlyPair
  split
  · exact visits_bind (visits_meet v _ hv) fun w hw => visits_meet w _ hw
  · exact Reads.malformed

/-- The pairs of a mapping are met after it was flattened. -/
theorem visits_pairs (v : Visit) (id : Nat) (hv : v.Measures) : Visits v.graph (do
    let g ← v.graph.flatten id
    (g.pairs id).foldlM meetPair { v with graph := g }) := by
  refine .bind ((Graph.reads_flatten v.graph id).mono (fun _ hg => hg) fun _ => False.elim) fun g hg => ?_
  have hpairs := visits_foldlM visits_meetPair (g.pairs id) (v := { v with graph := g }) hv
  exact hpairs.mono (fun _ hw => ⟨hg.trans hw.1, hw.2⟩) fun _ => hg.blames

theorem visits_enter (v : Visit) (id : Nat) (hv : v.Measures) : Visits v.graph (v.enter id) := by
  unfold enter
  split
  · exact visits_foldlM visits_meet _ hv
  · exact visits_foldlM visits_meetOnlyPair _ hv
  · exact visits_pairs v id hv
  · exact visits_pairs v id hv
  · exact Reads.malformed

theorem visits_run : ∀ (bound : Nat) (v : Visit), v.Measures → Visits v.graph (run bound v)
  | 0, _, _ => Reads.malformed
  | bound + 1, v, hv => by
    unfold run
    split
    · exact .ok ⟨.refl _, hv⟩
    · exact visits_bind (visits_enter { v with waiting := _ } _ hv) fun w hw => visits_run bound w hw

theorem visits_visit (g : Graph) (root : Nat) : Visits g (g.visit root) :=
  visits_bind (visits_meet ⟨g, [], [], []⟩ root fun _ he => by cases he) fun v hv => visits_run _ v hv

end Visit

/-! ### Values -/

theorem mem_putUnder {k : Value} {id : Nat} : ∀ {es : List (Value × Nat)} {e : Value × Nat}, e ∈ putUnder k id es →
    e.1 = k ∨ ∃ e' ∈ es, e.1 = e'.1
  | [], e, h => .inl (by rw [List.mem_singleton.mp h])
  | (k', id') :: rest, e, h => by
    unfold putUnder at h
    split at h
    · rcases List.mem_cons.mp h with rfl | h
      · exact .inr ⟨_, List.mem_cons_self, rfl⟩
      · exact .inr ⟨e, List.mem_cons_of_mem _ h, rfl⟩
    · rcases List.mem_cons.mp h with rfl | h
      · exact .inr ⟨_, List.mem_cons_self, rfl⟩
      · rcases mem_putUnder h with hk | ⟨e', he', hk⟩
        · exact .inl hk
        · exact .inr ⟨e', List.mem_cons_of_mem _ he', hk⟩

theorem measured_putAll : ∀ {keyed es : List (Value × Nat)}, (∀ e ∈ keyed, Measured e.1) →
    (∀ e ∈ es, Measured e.1) →
    ∀ e ∈ keyed.foldl (fun es (k, v) => putUnder k v es) es, Measured e.1
  | [], _, _, hes => hes
  | (k, id) :: keyed, es, hkeyed, hes => by
    have hes' : ∀ e ∈ putUnder k id es, Measured e.1 := by
      intro e he
      rcases mem_putUnder he with hk | ⟨e', he', hk⟩
      · rw [hk]
        exact hkeyed (k, id) List.mem_cons_self
      · rw [hk]
        exact hes e' he'
    rw [List.foldl_cons]
    exact measured_putAll (fun e he => hkeyed e (List.mem_cons_of_mem _ he)) hes'

namespace Visit

/-- Keys of a mapping are values of its nodes. -/
theorem reads_keyed {value : Nat → Except Trouble Value} {Q : ScalarFault → Prop}
    (hvalue : ∀ id, Reads Measured Q (value id)) (pairs : List (Nat × Nat)) :
    Reads (fun es => ∀ e ∈ es, Measured e.1) Q (keyed value pairs) := by
  have hkeys : ∀ p ∈ pairs, Reads (fun e : Value × Nat => Measured e.1) Q (do .ok (← value p.1, p.2)) :=
    fun p _ => .bind (hvalue p.1) fun k hk => .ok hk
  refine .bind (.mapM hkeys) fun keys hkeys => .ok ?_
  exact measured_putAll hkeys fun e he => by cases he

/-- After a visit no scalar is left to read, so only what is malformed has no value. -/
theorem reads_value {v : Visit} (hv : v.Measures) : ∀ bound id : Nat,
    Reads Measured (fun _ => False) (v.value bound id)
  | 0, _ => Reads.malformed
  | bound + 1, id => by
    have ih := reads_value hv bound
    unfold value
    split
    · rename_i _ a hscalar
      obtain ⟨before, after, hmem, -⟩ := List.lookup_eq_some_iff.mp hscalar
      exact .ok (hv (id, a) (hmem ▸ List.mem_append_right _ List.mem_cons_self))
    · exact .bind (.mapM fun id _ => ih id) fun items hitems => .ok ⟨⟨_, rfl⟩, hitems⟩
    · refine .bind (.mapM (R := Measured) fun item _ => ?_) fun items hitems => .ok ⟨⟨_, rfl⟩, hitems⟩
      split
      · refine .bind (ih _) fun k hk => .bind (ih _) fun x hx => .ok ⟨⟨_, rfl⟩, ?_⟩
        exact List.forall_mem_cons.mpr ⟨hk, List.forall_mem_singleton.mpr hx⟩
      · exact Reads.malformed
    · refine .bind (reads_keyed ih _) fun es hes => .ok ⟨⟨_, rfl⟩, keysInPlaces_all fun k hk => ?_⟩
      obtain ⟨e, he, rfl⟩ := List.mem_map.mp hk
      exact hes e he
    · refine .bind (reads_keyed ih _) fun es hes => ?_
      refine .bind (.mapM fun e he => ?_) fun es hes => .ok (measured_mapping hes)
      exact .bind (ih e.2) fun x hx => .ok ⟨hes e he, hx⟩
    · exact Reads.malformed

end Visit

/-- Why a YAML text that is not malformed cannot be read. -/
inductive Unreadable (text : String) (f : ScalarFault) : Prop where
  /-- An escape between quotes is the number of no character. -/
  | escape {tokens : List Token} (htokens : Token.ofText text = .ok tokens) (hfault : .fault f ∈ tokens)
      (hescape : IsEscape f)
  /-- A node of the document that is read as a scalar has no value of its type. -/
  | node {tokens : List Token} {d : Document} (htokens : Token.ofText text = .ok tokens)
      (hdocument : Document.ofTokens tokens = .ok (some d)) (hblames : d.graph.Blames f)

/-- **What stops the reading of a YAML text** is a scalar, unless the text is malformed. The
value of a text has lengths at every depth. -/
theorem reads_readYaml (text : String) : Reads Measured (Unreadable text) (readYaml text) := by
  have hreads := Token.reads_ofText text
  unfold readYaml
  cases htokens : Token.ofText text with
  | error e =>
    rw [htokens] at hreads
    cases e with
    | malformed => exact Reads.malformed
    | scalar f => exact hreads.elim
  | ok tokens =>
    rw [htokens] at hreads
    have hdocuments := Document.reads_ofTokens tokens
    rw [ok_bind]
    cases hdocument : Document.ofTokens tokens with
    | error e =>
      rw [hdocument] at hdocuments
      cases e with
      | malformed => exact Reads.malformed
      | scalar f => exact .escape htokens hdocuments (hreads f hdocuments)
    | ok found =>
      cases found with
      | none => exact measured_atom ⟨_, rfl⟩
      | some d =>
        rw [ok_bind]
        have hvisit := (Visit.visits_visit d.graph d.root).mono (fun _ hv => hv.2) fun f hf =>
          Unreadable.node htokens hdocument hf
        refine .bind hvisit fun v hv => ?_
        exact (Visit.reads_value hv _ _).mono (fun _ hx => hx) fun _ => False.elim

end Yaml
end ArgSchema
