/-
# Mappings in place of positional schemas

Asked for positions, a schema that was built from a mapping is refused: it has names. The mapping
itself is not, since a list or a tuple is normalized to a mapping too, with positions for keys. Its
entries are checked by position: a key that is an integer counts to an item, and any other key reads
as null, like a position past the end (`Sequence.itemUnder`).

So the two end alike only if there is no sequence or no entry (`validatePositional_mapping`). A mapping
of names makes every sequence valid if all its entries are optional, and none otherwise; a mapping of
positions in order is the list of its values.

Key definitions: `Sequence.itemUnder`, `Entries.Unplaced`.
-/
import ArgSchema.Proofs.CheckTree

namespace ArgSchema

open Value

/-- The item of a sequence that a key counts to: null if the key is no integer, or counts to none. -/
def Sequence.itemUnder (xs : Sequence) (key : Value) : Value :=
  match key.int? with
  | none => null
  | some i => if i < 0 then null else (xs.elements[i.toNat]?).getD null

/-- No key of the entries counts to an item, as it is with names. -/
def Entries.Unplaced (es : Entries) : Prop := ∀ e ∈ es, ∀ i, e.1.int? = some i → i < 0

/-! ### What keys read -/

theorem Measured.itemUnder {v : Value} {xs : Sequence} (hv : Measured v) (hxs : v.sequence? = some xs) (key : Value) :
    xs.get key = .ok (xs.itemUnder key) ∧ Measured (xs.itemUnder key) := by
  have hget : xs.get key = .ok (xs.itemUnder key) := Sequence.get_eq hxs hv.length key
  obtain ⟨w, hw, hm⟩ := hv.get hxs key
  obtain rfl : w = xs.itemUnder key := Except.ok.inj (hw.symm.trans hget)
  exact ⟨hget, hm⟩

/-- A key that counts to no item reads as null, whatever the sequence. -/
theorem get_unplaced {xs : Sequence} {key : Value} (h : ∀ i, key.int? = some i → i < 0) : xs.get key = .ok null := by
  unfold Sequence.get
  cases hkey : key.int? with
  | none => rfl
  | some i =>
    have hneg : i < 0 := h i hkey
    simp only
    rw [if_pos hneg]

theorem fails_null {x : Value} : Fails x null ↔ ¬ x.IsOptional := by
  have hnull : null.isNull = true := rfl
  simp [Fails, hnull]

/-- Nothing fails where nothing is given just if every entry is optional. -/
theorem failingOf_null {es : Entries} : failingOf (fun _ => null) es = [] ↔ ∀ e ∈ es, e.2.IsOptional := by
  rw [List.eq_nil_iff_forall_not_mem]
  constructor
  · intro h e he
    by_contra hneeded
    exact h e.1 (mem_failingOf.mpr ⟨e, he, fails_null.mpr hneeded, rfl⟩)
  · intro h k hk
    obtain ⟨e, he, hfails, -⟩ := mem_failingOf.mp hk
    exact fails_null.mp hfails (h e he)

/-! ### Mappings and the schemas that are built from them -/

section

variable {m v : Value} {es fields : Entries} {xs : Sequence}

/-- A schema that has names takes no positions. -/
theorem validatePositional_named {s : Value} (hs : isNamedSchema s = true) (v : Value) : validatePositional v s =
    pure (.structuralError (if v.sequence?.isSome then Outcome.missingSpec else Outcome.missingPositional)) := by
  cases hxs : v.sequence? with
  | none => exact validatePositional_none hxs s
  | some xs =>
    rw [validatePositional, hxs, hs]
    rfl

theorem isNamedSchema_mapping (hes : m.entries? = some es) : isNamedSchema m = false := by
  cases m with
  | mapping => rfl
  | _ => simp [entries?] at hes

theorem build_mapping (hes : m.entries? = some es) (hn : m.toFields = .ok fields) (path : Option String) (id : Nat) :
    ∃ S, Schema.build m path = .ok S ∧ isNamedSchema (S.toValue id) = true := by
  cases m with
  | mapping kind id' es' => exact ⟨⟨_, fields, path⟩, build_eq_ok.mpr ⟨rfl, rfl, hn⟩, rfl⟩
  | _ => simp [entries?] at hes

/-- There is a field for each entry of a mapping. -/
theorem fields_isEmpty (hes : m.entries? = some es) (hn : m.toFields = .ok fields) : fields = [] ↔ es = [] := by
  rw [toFields_of_entries hes] at hn
  exact normalizeEntries_eq_nil hn

/-- The entries of a mapping are checked by position, if there are any. -/
theorem validatePositional_entries (hes : m.entries? = some es) (hn : m.toFields = .ok fields)
    (hxs : v.sequence? = some xs) (hne : es ≠ []) :
    validatePositional v m = checkFields .positional v fields xs.get := by
  have hempty : fields.isEmpty = false := by
    rw [Bool.eq_false_iff]
    exact fun h => hne ((fields_isEmpty hes hn).mp (List.isEmpty_iff.mp h))
  rw [validatePositional_some hxs (isNamedSchema_mapping hes) hn, hempty, if_neg Bool.false_ne_true]

/-- Which entries fail follows from what the keys read. -/
theorem validatePositional_failing {w : Value → Value} (hm : Plain m) (hes : m.entries? = some es)
    (hn : m.toFields = .ok fields) (hxs : v.sequence? = some xs) (hne : es ≠ []) (hw : ∀ k, Measured (w k))
    (hread : ∀ e ∈ es, xs.get e.1 = .ok (w e.1)) :
    ∃ o, (validatePositional v m).result = .ok o ∧ o.structural = false ∧ o.failedKeys = failingOf w es := by
  have hkeys : ∀ f ∈ fields, xs.get f.1 = .ok (w f.1) := by
    intro f hf
    rw [toFields_of_entries hes] at hn
    obtain ⟨e, he, hkey, -⟩ := mem_normalizeEntries hn f hf
    rw [hkey]
    exact hread e he
  obtain ⟨tree, htree, hrun⟩ := checkFields_tree v .positional hm hw hn hkeys
  have hfailing : tree.failing = failingOf w es := by
    rw [declared_of_entries hes] at htree
    obtain ⟨-⟩ := htree
    rfl
  refine ⟨⟨tree.failing, v, fields, false⟩, ?_, rfl, hfailing⟩
  rw [validatePositional_entries hes hn hxs hne, hrun]

/-- Values end alike with a mapping and with the schema that is built from it if and only if they
reach no field. -/
theorem validatePositional_eq_named_iff {s : Value} (hes : m.entries? = some es) (hn : m.toFields = .ok fields)
    (hs : isNamedSchema s = true) (v : Value) :
    validatePositional v m = validatePositional v s ↔ v.sequence? = none ∨ es = [] := by
  rw [validatePositional_named hs v]
  constructor
  · intro h
    by_contra hreach
    obtain ⟨hseq, hne⟩ := not_or.mp hreach
    obtain ⟨xs, hxs⟩ := Option.ne_none_iff_exists'.mp hseq
    rw [validatePositional_entries hes hn hxs hne] at h
    have hstructural := checkFields_structural (congrArg Traced.result h)
    simp [Outcome.structuralError] at hstructural
  · intro h
    cases hxs : v.sequence? with
    | none => exact validatePositional_none hxs m
    | some xs =>
      have hes' : es = [] := h.resolve_left (by rw [hxs]; exact Option.some_ne_none xs)
      have hempty : fields.isEmpty = true := List.isEmpty_iff.mpr ((fields_isEmpty hes hn).mpr hes')
      rw [validatePositional_some hxs (isNamedSchema_mapping hes) hn, hempty]
      rfl

end

/-- **What a mapping does in place of a positional schema.** The schema that is built from it takes no
positions at all. The mapping ends alike just for values that are no sequence, or without entries.
Otherwise its entries are checked against the items that their keys count to; if no key counts to any,
the values are valid just if all entries are optional; and entries under the positions in order are
those of a list. -/
theorem validatePositional_mapping {m : Value} {es fields : Entries} (hm : Plain m) (hes : m.entries? = some es)
    (hn : m.toFields = .ok fields) (path : Option String) (id : Nat) :
    ∃ S, Schema.build m path = .ok S ∧ ∀ v,
      validatePositional v (S.toValue id) =
        pure (.structuralError (if v.sequence?.isSome then Outcome.missingSpec else Outcome.missingPositional)) ∧
      (validatePositional v m = validatePositional v (S.toValue id) ↔ v.sequence? = none ∨ es = []) ∧
      ∀ xs, v.sequence? = some xs → es ≠ [] →
        (Measured v → ∃ o, (validatePositional v m).result = .ok o ∧ o.structural = false ∧
          o.failedKeys = failingOf xs.itemUnder es) ∧
        (Entries.Unplaced es → ∃ o, (validatePositional v m).result = .ok o ∧ o.structural = false ∧
          (o.isValid = true ↔ ∀ e ∈ es, e.2.IsOptional)) ∧
        ∀ items, es = indexed 0 items → validatePositional v m = validatePositional v (ofList items) := by
  obtain ⟨S, hS, hnamed⟩ := build_mapping hes hn path id
  refine ⟨S, hS, fun v => ⟨validatePositional_named hnamed v, validatePositional_eq_named_iff hes hn hnamed v,
    fun xs hxs hne => ⟨fun hv => ?_, fun hunplaced => ?_, fun items hitems => ?_⟩⟩⟩
  · exact validatePositional_failing hm hes hn hxs hne (fun k => (hv.itemUnder hxs k).2)
      fun e _ => (hv.itemUnder hxs e.1).1
  · obtain ⟨o, ho, hstructural, hfailed⟩ := validatePositional_failing (w := fun _ => null) hm hes hn hxs hne
      (fun _ => measured_null) fun e he => get_unplaced (hunplaced e he)
    refine ⟨o, ho, hstructural, ?_⟩
    rw [Outcome.isValid, List.isEmpty_iff, hfailed]
    exact failingOf_null
  · obtain ⟨hlist, hmode⟩ := toFields_listItems (rfl : (ofList items).listItems? = some items)
    have hto : m.toFields = (ofList items).toFields := by rw [hlist, toFields_of_entries hes, hitems]
    exact validatePositional_congr hto ((isNamedSchema_mapping hes).trans hmode.symm) v

/-- One text by position, against a mapping of an optional name and a mapping of one position. -/
theorem validatePositional_mapping_text :
    let names := [(ofText "a", ofEntries [(ofText "isa", ofText "string"), (ofText "optional", ofBool true)])]
    let places := [(ofInt 0, ofText "string")]
    let v := ofList [ofText "x"]
    (∃ S, Schema.build (ofEntries names) none = .ok S ∧
      validatePositional v (S.toValue 0) = pure (.structuralError Outcome.missingSpec) ∧
      validatePositional v (ofEntries names) ≠ validatePositional v (S.toValue 0)) ∧
    (∃ o, (validatePositional v (ofEntries names)).result = .ok o ∧ o.isValid = true) ∧
    (∃ o, (validatePositional v (ofEntries places)).result = .ok o ∧
      o.failedKeys = failingOf (Sequence.items [ofText "x"]).itemUnder places) ∧
    validatePositional v (ofEntries places) = validatePositional v (ofList [ofText "string"]) := by
  intro names places v
  have hoptional : Plain (ofEntries [(ofText "isa", ofText "string"), (ofText "optional", ofBool true)]) :=
    plain_named ["isa", "optional"] rfl (by decide)
      (List.forall_mem_cons.mpr ⟨.atom _, List.forall_mem_singleton.mpr (.atom _)⟩)
  have hnames : Plain (ofEntries names) := plain_named ["a"] rfl (by decide) (List.forall_mem_singleton.mpr hoptional)
  have hplaces : Plain (ofEntries places) :=
    .mapping (indexed_keyed [ofText "string"] 0) (List.forall_mem_singleton.mpr (.atom _))
  have hv : Measured v := ⟨⟨_, rfl⟩, List.forall_mem_singleton.mpr (measured_atom ⟨_, rfl⟩)⟩
  have hunplaced : Entries.Unplaced names := by
    refine List.forall_mem_singleton.mpr fun i hi => ?_
    simp [int?, ofText] at hi
  obtain ⟨S, hS, hread⟩ := validatePositional_mapping hnames rfl rfl none 0
  obtain ⟨hrefused, halike, hentries⟩ := hread v
  obtain ⟨-, hvalid, -⟩ := hentries (.items [ofText "x"]) rfl (List.cons_ne_nil _ _)
  obtain ⟨o, ho, -, hiff⟩ := hvalid hunplaced
  obtain ⟨_, -, hplaced⟩ := validatePositional_mapping hplaces rfl rfl none 0
  obtain ⟨-, -, hitems⟩ := hplaced v
  obtain ⟨hmeasured, -, hlist⟩ := hitems (.items [ofText "x"]) rfl (List.cons_ne_nil _ _)
  obtain ⟨o', ho', -, hfailed⟩ := hmeasured hv
  refine ⟨⟨S, hS, hrefused, fun he => ?_⟩, ⟨o, ho, hiff.mpr (List.forall_mem_singleton.mpr rfl)⟩, ⟨o', ho', hfailed⟩,
    hlist [ofText "string"] rfl⟩
  have hnone := halike.mp he
  simp [v, names, ofList, sequence?] at hnone

/-- **Names that make positional values valid.** A mapping of one optional name lets every sequence
through, and the schema that is built from it none. -/
theorem validatePositional_optionalName :
    let m := ofEntries [(ofText "a", ofEntries [(ofText "isa", ofText "string"), (ofText "optional", ofBool true)])]
    ∃ S, Schema.build m none = .ok S ∧
      (validatePositional (ofList [ofText "x"]) (S.toValue 0)).errors = .ok [ofText Outcome.missingSpec] ∧
      (validatePositional (ofList [ofText "x"]) m).errors = .ok [] :=
  ⟨_, rfl, rfl, rfl⟩

end ArgSchema
