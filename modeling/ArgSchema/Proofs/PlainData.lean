/-
# Plain data

What authors write schemas in, and what is assumed of the objects they are given.
Plain data holds no spec or constraint made by hand; its mappings have distinct keys
that can be looked up, and a schema among it keeps the fields that its raw value has.
A value is measured if no length, and so no truth value, of it or of a part is a fault.

An author declares entries, each entry asks for a type, and a type that is a mapping or
a schema declares entries again: a plain schema is a tree of types, and normalizing
follows it (`Plain.toFields_eq`, `toField_eq`, `Plain.toConstraint_nested`). What is proved
about plain schemas goes by induction on that tree (`Plain.induction`).

Key definitions: `Plain`, `Measured`, `Value.declared`, `Value.askedType`, `Value.flag`,
`Value.nestedEntries?`, `Place`.
-/
import ArgSchema.Schema
import Mathlib.Data.List.Forall2
import Mathlib.Data.List.Nodup

namespace ArgSchema

/-! ### Results -/

theorem bind_eq_ok {ε α β : Type} {x : Except ε α} {f : α → Except ε β} {b : β} :
    (x >>= f) = .ok b ↔ ∃ a, x = .ok a ∧ f a = .ok b := by
  cases x with
  | error e => simp [bind, Except.bind]
  | ok a => simp [bind, Except.bind]

@[simp] theorem ok_bind {ε α β : Type} (a : α) (f : α → Except ε β) : (Except.ok a >>= f) = f a := rfl

@[simp] theorem error_bind {ε α β : Type} (e : ε) (f : α → Except ε β) :
    (Except.error e >>= f) = Except.error e := rfl

/-! ### Keys -/

/-- The entries of a mapping have keys that can be looked up, no two the same. -/
structure Entries.Keyed (es : Entries) : Prop where
  hashable : ∀ x ∈ es.map Prod.fst, ∃ k, x.key = .ok k
  distinct : (es.map Prod.fst).Pairwise fun x y => x.key ≠ y.key

theorem key_ofInt (n : Int) : (Value.ofInt n).key = .ok [.number n] := by
  simp [Value.ofInt, Value.key, Atom.key]

theorem key_ofText (s : String) : (Value.ofText s).key = .ok [.text s] := by
  simp [Value.ofText, Value.key, Atom.key]

theorem hasKey_of_key {v : Value} {k k' : Key} (h : v.key = .ok k) : v.hasKey k' = (k == k') := by
  rw [Value.hasKey, h]

theorem find?_mem {k : Key} {v : Value} : ∀ {es : Entries}, Entries.find? k es = some v →
    ∃ e ∈ es, e.1.key = .ok k ∧ e.2 = v
  | (x, w) :: rest, h => by
    unfold Entries.find? at h
    split at h
    · rename_i hk
      refine ⟨(x, w), List.mem_cons_self, ?_, by simpa using h⟩
      unfold Value.hasKey at hk
      split at hk
      · rename_i hx
        rw [hx, eq_of_beq hk]
      · simp at hk
    · obtain ⟨e, he, hk⟩ := find?_mem h
      exact ⟨e, List.mem_cons_of_mem _ he, hk⟩

theorem find?_of_mem {k : Key} : ∀ {es : Entries} {x : Value}, x ∈ es.map Prod.fst → x.key = .ok k →
    ∃ v, Entries.find? k es = some v
  | (y, w) :: rest, x, h, hx => by
    unfold Entries.find?
    split
    · exact ⟨w, rfl⟩
    · rename_i hne
      rcases List.mem_cons.mp h with rfl | h
      · exact absurd (by rw [hasKey_of_key hx]; exact beq_self_eq_true k) hne
      · exact find?_of_mem h hx

/-- An entry is the only one with its key. -/
theorem Entries.Keyed.eq_of_key {es : Entries} (h : Entries.Keyed es) {e f : Value × Value} (he : e ∈ es)
    (hf : f ∈ es) (hk : e.1.key = f.1.key) : e = f := by
  have hdistinct := h.distinct
  rw [List.pairwise_map] at hdistinct
  have hnodup : (es.map fun e => e.1.key).Nodup := List.pairwise_map.mpr hdistinct
  exact List.inj_on_of_nodup_map hnodup he hf hk

/-- Looking up the key of an entry finds its value. -/
theorem Entries.Keyed.lookup {es : Entries} (h : Entries.Keyed es) {e : Value × Value} (he : e ∈ es) :
    Value.lookup? es e.1 = .ok (some e.2) := by
  have hmem : e.1 ∈ es.map Prod.fst := List.mem_map_of_mem he
  obtain ⟨k, hk⟩ := h.hashable e.1 hmem
  obtain ⟨v, hv⟩ := find?_of_mem hmem hk
  obtain ⟨f, hf, hkf, rfl⟩ := find?_mem hv
  obtain rfl := h.eq_of_key he hf (hk.trans hkf.symm)
  rw [Value.lookup?, hk, ok_bind, hv]

namespace Value

/-! ### What a schema declares -/

/-- The items of a list under their positions from `i` on. -/
def indexed (i : Nat) : List Value → Entries
  | [] => []
  | x :: rest => (ofInt i, x) :: indexed (i + 1) rest

/-- The entries that an author declares by a value that is used as a schema. A schema
declares what its raw value does; a bare type name in it is a list of one. -/
def declared : Value → Entries
  | .mapping _ _ es => es
  | .collection kind _ items => if kind.isListOrTuple then indexed 0 items else []
  | .schema _ raw _ => if raw.text?.isSome then indexed 0 [raw] else declared raw
  | _ => []

/-- The type that an entry asks for: the value under "isa", otherwise the entry itself. -/
def askedType : Value → Value
  | .mapping kind id es => (Entries.field? "isa" es).getD (.mapping kind id es)
  | x => x

/-- Whether an entry is optional: it holds "isa" and a true value under "optional". -/
def flag : Value → Except Fault Bool
  | .mapping _ _ es => if (Entries.field? "isa" es).isSome then (optionalFlag es).truth else .ok false
  | _ => .ok false

/-- The entries that a type declares, if it is a mapping or a schema. -/
def nestedEntries? : Value → Option Entries
  | .mapping kind id es => some (declared (.mapping kind id es))
  | .schema id raw fields => some (declared (.schema id raw fields))
  | _ => none

/-- The parts of a value. -/
def parts : Value → List Value
  | .atom _ => []
  | .collection _ _ items => items
  | .mapping _ _ es => es.map Prod.fst ++ es.map Prod.snd
  | .exception _ _ args files => args ++ files
  | .typeName name => [name]
  | .nested fields => fields.map Prod.fst ++ fields.map Prod.snd
  | .instanceOf c => [c]
  | .unsatisfiable raw => [raw]
  | .fieldSpec isa optional => [isa, optional]
  | .schema _ raw _ => [raw]

end Value

/-- Where a part of a schema stands: it is the whole, an entry, or the type under "isa". -/
inductive Place where
  | whole | entry | type
  deriving DecidableEq

/-- A value whose length is no fault, nor that of any part. -/
inductive Measured : Value → Prop where
  | intro {v : Value} (hlen : ∃ n, v.length? = .ok n) (hparts : ∀ w ∈ v.parts, Measured w) : Measured v

/-- Data without specs and constraints made by hand. -/
inductive Plain : Value → Prop where
  | atom (a : Atom) : Plain (.atom a)
  | collection {kind : CollectionKind} {id : Nat} {items : List Value}
      (hitems : ∀ x ∈ items, Plain x) : Plain (.collection kind id items)
  | mapping {kind : MappingKind} {id : Nat} {es : Entries} (hkeys : Entries.Keyed es)
      (hvalues : ∀ e ∈ es, Plain e.2) : Plain (.mapping kind id es)
  | exception (c : Class) (id : Nat) (args files : List Value) : Plain (.exception c id args files)
  | schema {id : Nat} {raw : Value} {fields : Entries} {path : Option String} (hraw : Plain raw)
      (hbuilt : Schema.build raw path = .ok ⟨raw, fields, path⟩) : Plain (.schema id raw fields)

/-! ### Plain schemas are trees of types -/

open Value

theorem mem_indexed {e : Value × Value} : ∀ {items : List Value} {i : Nat}, e ∈ indexed i items → e.2 ∈ items
  | x :: rest, i, h => by
    rcases List.mem_cons.mp h with rfl | h
    · exact List.mem_cons_self
    · exact List.mem_cons_of_mem _ (mem_indexed h)

theorem exists_indexed {x : Value} : ∀ {items : List Value}, x ∈ items → ∀ i, ∃ e ∈ indexed i items, e.2 = x
  | y :: rest, h, i => by
    rcases List.mem_cons.mp h with rfl | h
    · exact ⟨(ofInt i, x), List.mem_cons_self, rfl⟩
    · obtain ⟨e, he, hx⟩ := exists_indexed h (i + 1)
      exact ⟨e, List.mem_cons_of_mem _ he, hx⟩

theorem key_indexed {e : Value × Value} : ∀ {items : List Value} {i : Nat}, e ∈ indexed i items →
    ∃ n : Nat, i ≤ n ∧ e.1 = ofInt n
  | x :: rest, i, h => by
    rcases List.mem_cons.mp h with rfl | h
    · exact ⟨i, Nat.le_refl i, rfl⟩
    · obtain ⟨n, hn, he⟩ := key_indexed h
      exact ⟨n, by omega, he⟩

theorem indexed_keyed : ∀ (items : List Value) (i : Nat), Entries.Keyed (indexed i items)
  | [], _ => ⟨by simp [indexed], List.Pairwise.nil⟩
  | x :: rest, i => by
    have ih := indexed_keyed rest (i + 1)
    refine ⟨fun y hy => ?_, List.pairwise_cons.mpr ⟨fun y hy => ?_, ih.distinct⟩⟩
    · obtain ⟨e, he, rfl⟩ := List.mem_map.mp hy
      obtain ⟨n, -, hn⟩ := key_indexed he
      exact ⟨_, by rw [hn, key_ofInt]⟩
    · obtain ⟨e, he, rfl⟩ := List.mem_map.mp hy
      obtain ⟨n, hle, hn⟩ := key_indexed he
      have hne : (i : Int) ≠ n := by omega
      rw [hn, key_ofInt, key_ofInt]
      simpa using hne

theorem Plain.declared {s : Value} (h : Plain s) : ∀ e ∈ s.declared, Plain e.2 := by
  induction h with
  | atom a => simp [Value.declared]
  | exception => simp [Value.declared]
  | @collection kind id items hitems =>
    intro e he
    unfold Value.declared at he
    split at he
    · exact hitems _ (mem_indexed he)
    · simp at he
  | mapping hkeys hvalues => exact hvalues
  | @schema id raw fields path hraw hbuilt ih =>
    intro e he
    unfold Value.declared at he
    split at he
    · have := mem_indexed he
      rw [List.mem_singleton] at this
      rw [this]
      exact hraw
    · exact ih e he

theorem Plain.keyed {s : Value} (h : Plain s) : Entries.Keyed s.declared := by
  induction h with
  | atom a => exact indexed_keyed [] 0
  | exception => exact indexed_keyed [] 0
  | @collection kind id items hitems =>
    unfold Value.declared
    split
    · exact indexed_keyed items 0
    · exact indexed_keyed [] 0
  | mapping hkeys hvalues => exact hkeys
  | @schema id raw fields path hraw hbuilt ih =>
    unfold Value.declared
    split
    · exact indexed_keyed [raw] 0
    · exact ih

/-- A mapping asks for the type under "isa", or for itself. -/
theorem askedType_mapping (kind : MappingKind) (id : Nat) (es : Entries) :
    (∃ e ∈ es, e.1.key = .ok [.text "isa"] ∧ (Value.mapping kind id es).askedType = e.2) ∨
      (Value.mapping kind id es).askedType = .mapping kind id es := by
  cases hisa : Entries.field? "isa" es with
  | none => exact .inr (by simp [Value.askedType, hisa])
  | some t =>
    obtain ⟨e, he, hk, rfl⟩ := find?_mem hisa
    exact .inl ⟨e, he, hk, by simp [Value.askedType, hisa]⟩

theorem sizeOf_askedType_le (x : Value) : sizeOf x.askedType ≤ sizeOf x := by
  cases x with
  | mapping kind id es =>
    rcases askedType_mapping kind id es with ⟨e, he, -, ht⟩ | ht
    · rw [ht]
      have hentry := List.sizeOf_lt_of_mem he
      obtain ⟨k, v⟩ := e
      simp only [Prod.mk.sizeOf_spec, Value.mapping.sizeOf_spec] at hentry ⊢
      omega
    · exact Nat.le_of_eq (congrArg sizeOf ht)
  | _ => exact Nat.le_refl _

theorem sizeOf_askedType_lt {kind : MappingKind} {id : Nat} {es : Entries} {e : Value × Value} (he : e ∈ es) :
    sizeOf e.2.askedType < sizeOf (Value.mapping kind id es) := by
  have hasked := sizeOf_askedType_le e.2
  have hentry := List.sizeOf_lt_of_mem he
  obtain ⟨k, v⟩ := e
  simp only [Prod.mk.sizeOf_spec, Value.mapping.sizeOf_spec] at hasked hentry ⊢
  omega

/-- Induction on any type: a mapping stands on the types that its entries ask for. -/
theorem type_induction {P : Value → Prop} (leaf : ∀ t, t.nestedEntries? = none → P t)
    (schema : ∀ id raw fields, P (.schema id raw fields))
    (mapping : ∀ kind id es, (∀ e ∈ es, P e.2.askedType) → P (.mapping kind id es)) (t : Value) : P t := by
  -- the type under "isa" lies two levels down, so the induction is on the size
  induction hn : sizeOf t using Nat.strongRecOn generalizing t with
  | ind n ih =>
    cases t with
    | mapping kind id es => exact mapping kind id es fun e he => ih _ (hn ▸ sizeOf_askedType_lt he) _ rfl
    | schema id raw fields => exact schema id raw fields
    | _ => exact leaf _ rfl

theorem Plain.askedType {x : Value} (h : Plain x) : Plain x.askedType := by
  cases h with
  | @mapping kind id es hkeys hvalues =>
    rcases askedType_mapping kind id es with ⟨e, he, -, ht⟩ | ht
    · rw [ht]
      exact hvalues e he
    · rw [ht]
      exact .mapping hkeys hvalues
  | atom a => exact .atom a
  | collection hitems => exact .collection hitems
  | exception c id args files => exact .exception c id args files
  | schema hraw hbuilt => exact .schema hraw hbuilt

/-- **Induction on a plain type.** A property of types holds if it holds of those without
entries, and of those that declare entries if it holds of the types that these ask for. -/
theorem Plain.induction {P : Value → Prop}
    (leaf : ∀ t, Plain t → t.nestedEntries? = none → P t)
    (nested : ∀ t inner, Plain t → t.nestedEntries? = some inner →
      (∀ e ∈ inner, P e.2.askedType) → P t)
    {t : Value} (ht : Plain t) : P t := by
  -- a raw list is no type, but its items are entries: both facts go through the induction
  suffices h : P t ∧ P t.askedType ∧ ∀ e ∈ t.declared, P e.2.askedType from h.1
  induction ht with
  | atom a =>
    have h := leaf _ (.atom a) rfl
    exact ⟨h, h, by simp [Value.declared]⟩
  | exception c id args files =>
    have h := leaf _ (.exception c id args files) rfl
    exact ⟨h, h, by simp [Value.declared]⟩
  | @collection kind id items hitems ih =>
    have h := leaf (.collection kind id items) (.collection hitems) rfl
    refine ⟨h, h, fun e he => ?_⟩
    unfold Value.declared at he
    split at he
    · exact (ih _ (mem_indexed he)).2.1
    · simp at he
  | @mapping kind id es hkeys hvalues ih =>
    have hd : ∀ e ∈ es, P e.2.askedType := fun e he => (ih e he).2.1
    have h := nested (.mapping kind id es) es (.mapping hkeys hvalues) rfl hd
    refine ⟨h, ?_, hd⟩
    rcases askedType_mapping kind id es with ⟨e, he, -, ht⟩ | ht
    · rw [ht]
      exact (ih e he).1
    · rw [ht]
      exact h
  | @schema id raw fields path hraw hbuilt ih =>
    have hd : ∀ e ∈ (Value.schema id raw fields).declared, P e.2.askedType := by
      intro e he
      unfold Value.declared at he
      split at he
      · have := mem_indexed he
        rw [List.mem_singleton] at this
        rw [this]
        exact ih.2.1
      · exact ih.2.2 e he
    have h := nested _ _ (.schema hraw hbuilt) rfl hd
    exact ⟨h, h, hd⟩

/-! ### Normalizing follows the tree -/

theorem normalizeItems_eq : ∀ (items : List Value) (i : Nat),
    normalizeItems i items = normalizeEntries (indexed i items)
  | [], _ => by simp [normalizeItems, indexed, normalizeEntries]
  | x :: rest, i => by
    simp only [normalizeItems, indexed, normalizeEntries, normalizeItems_eq rest]

/-- A plain schema normalizes to its declared entries, one by one. -/
theorem Plain.toFields_eq {s : Value} (h : Plain s) : s.toFields = normalizeEntries s.declared := by
  induction h with
  | atom a => simp [toFields, Value.declared, normalizeEntries]
  | exception => simp [toFields, Value.declared, normalizeEntries]
  | mapping hkeys hvalues => simp [toFields, Value.declared]
  | @collection kind id items hitems =>
    unfold toFields Value.declared
    by_cases hk : kind.isListOrTuple
    · simp only [hk, ↓reduceIte, normalizeItems_eq]
    · simp [hk, normalizeEntries]
  | @schema id raw fields path hraw hbuilt ih =>
    unfold Schema.build at hbuilt
    obtain ⟨fs, hfs, he⟩ := bind_eq_ok.mp hbuilt
    have hf : fs = fields := by simpa using he
    subst hf
    unfold toFields Value.declared
    by_cases ht : raw.text?.isSome
    · simp only [ht, ↓reduceIte] at hfs ⊢
      rw [← hfs, ofList, toFields, ← normalizeItems_eq]
      simp [CollectionKind.isListOrTuple]
    · simp only [ht, Bool.false_eq_true, ↓reduceIte] at hfs ⊢
      rw [← ih, hfs]

theorem toConstraint_leaf {t : Value} (h : t.nestedEntries? = none) :
    t.toConstraint = .ok t.leafConstraint := by
  cases t with
  | mapping => simp [nestedEntries?] at h
  | schema => simp [nestedEntries?] at h
  | _ => simp [toConstraint]

/-- A type that declares entries stands for these, normalized. -/
theorem Plain.toConstraint_nested {t : Value} {inner : Entries} (ht : Plain t)
    (h : t.nestedEntries? = some inner) :
    t.toConstraint = (do .ok (.nested (← normalizeEntries inner))) := by
  cases ht with
  | mapping hkeys hvalues =>
    obtain rfl : _ = inner := by simpa [nestedEntries?] using h
    simp [toConstraint, Value.declared]
  | schema hraw hbuilt =>
    obtain rfl : _ = inner := by simpa [nestedEntries?] using h
    rw [← (Plain.schema hraw hbuilt).toFields_eq]
    simp [toConstraint, toFields]
  | atom => simp [nestedEntries?] at h
  | collection => simp [nestedEntries?] at h
  | exception => simp [nestedEntries?] at h

theorem constraintOfIsa_eq : ∀ es : Entries,
    constraintOfIsa es = (Entries.field? "isa" es).map toConstraint
  | [] => by simp [constraintOfIsa, Entries.field?, Entries.find?]
  | (k, t) :: rest => by
    have ih := constraintOfIsa_eq rest
    unfold Entries.field? at ih ⊢
    unfold constraintOfIsa Entries.find?
    split
    · rfl
    · exact ih

/-- An entry stands for the constraint of the type that it asks for, with its flag, unless
it is a field spec already. -/
theorem toField_eq {x : Value} (h : ∀ isa optional, x ≠ .fieldSpec isa optional) :
    x.toField = (do
      let c ← x.askedType.toConstraint
      let b ← x.flag
      .ok (.fieldSpec c (ofBool b))) := by
  cases x with
  | mapping kind id es =>
    unfold toField Value.askedType flag
    rw [constraintOfIsa_eq]
    cases hisa : Entries.field? "isa" es with
    | some t => simp [hisa]
    | none =>
      simp only [hisa, Option.map_none, Option.getD_none, toConstraint]
      cases normalizeEntries es <;> simp
  | fieldSpec isa optional => exact absurd rfl (h isa optional)
  | _ => simp [toField, Value.askedType, flag, toConstraint]

theorem toField_eq_ok {x spec : Value} (h : ∀ isa optional, x ≠ .fieldSpec isa optional) :
    x.toField = .ok spec ↔
      ∃ c b, x.askedType.toConstraint = .ok c ∧ x.flag = .ok b ∧ spec = .fieldSpec c (ofBool b) := by
  rw [toField_eq h, bind_eq_ok]
  constructor
  · rintro ⟨c, hc, hspec⟩
    obtain ⟨b, hb, hspec⟩ := bind_eq_ok.mp hspec
    exact ⟨c, b, hc, hb, by simpa using hspec.symm⟩
  · rintro ⟨c, b, hc, hb, rfl⟩
    exact ⟨c, hc, by rw [hb, ok_bind]⟩

theorem Plain.not_fieldSpec {x : Value} (h : Plain x) (isa optional : Value) : x ≠ .fieldSpec isa optional := by
  rintro rfl
  cases h

/-! ### Measured values -/

theorem Measured.length {v : Value} (h : Measured v) : ∃ n, v.length? = .ok n := by
  cases h with
  | intro hlen hparts => exact hlen

theorem Measured.part {v w : Value} (h : Measured v) (hw : w ∈ v.parts) : Measured w := by
  cases h with
  | intro hlen hparts => exact hparts w hw

theorem Measured.isEmpty {v : Value} (h : Measured v) : ∃ b, v.isEmpty = .ok b := by
  obtain ⟨n, hn⟩ := h.length
  unfold Value.isEmpty
  by_cases hv : v.isNull
  · exact ⟨true, by simp [hv]⟩
  · exact ⟨n == some 0, by simp [hv, hn]⟩

/-- What has a length has a truth value. -/
theorem Measured.truth {v : Value} (h : Measured v) : ∃ b, v.truth = .ok b := by
  obtain ⟨n, hn⟩ := h.length
  unfold Value.truth
  split
  · exact ⟨_, rfl⟩
  · exact ⟨_, rfl⟩
  · rw [hn, ok_bind]
    split <;> exact ⟨_, rfl⟩

theorem measured_atom {a : Atom} (h : ∃ n, a.length? = .ok n) : Measured (.atom a) :=
  ⟨h, by simp [parts]⟩

/-- The value of an entry of a measured mapping is measured. -/
theorem Measured.entry {kind : MappingKind} {id : Nat} {es : Entries} {e : Value × Value}
    (h : Measured (.mapping kind id es)) (he : e ∈ es) : Measured e.2 :=
  h.part (List.mem_append_right _ (List.mem_map_of_mem he))

theorem Measured.flag {x : Value} (h : Measured x) : ∃ b, x.flag = .ok b := by
  cases x with
  | mapping kind id es =>
    simp only [Value.flag, optionalFlag]
    split
    · cases ho : Entries.field? "optional" es with
      | none => exact (measured_atom ⟨none, rfl⟩ : Measured (ofBool false)).truth
      | some o =>
        obtain ⟨e, he, -, rfl⟩ := find?_mem ho
        exact (h.entry he).truth
    · exact ⟨false, rfl⟩
  | _ => exact ⟨false, rfl⟩

theorem Measured.askedType {x : Value} (h : Measured x) : Measured x.askedType := by
  cases x with
  | mapping kind id es =>
    rcases askedType_mapping kind id es with ⟨e, he, -, ht⟩ | ht
    · rw [ht]
      exact h.entry he
    · rw [ht]
      exact h
  | _ => exact h

theorem measured_mapping {kind : MappingKind} {id : Nat} {es : Entries}
    (h : ∀ e ∈ es, Measured e.1 ∧ Measured e.2) : Measured (.mapping kind id es) := by
  refine ⟨⟨_, rfl⟩, fun w hw => ?_⟩
  rcases List.mem_append.mp hw with hw | hw
  · obtain ⟨e, he, rfl⟩ := List.mem_map.mp hw
    exact (h e he).1
  · obtain ⟨e, he, rfl⟩ := List.mem_map.mp hw
    exact (h e he).2

/-! ### Mappings with names for keys -/

theorem keyed_named {es : Entries} (names : List String) (h : es.map Prod.fst = names.map ofText)
    (hnodup : names.Nodup) : Entries.Keyed es := by
  refine ⟨fun x hx => ?_, ?_⟩
  · rw [h] at hx
    obtain ⟨s, -, rfl⟩ := List.mem_map.mp hx
    exact ⟨_, key_ofText s⟩
  · rw [h, List.pairwise_map]
    refine hnodup.imp fun hne he => hne ?_
    simpa [key_ofText] using he

theorem plain_named {es : Entries} (names : List String) (h : es.map Prod.fst = names.map ofText)
    (hnodup : names.Nodup) (hvalues : ∀ e ∈ es, Plain e.2) : Plain (ofEntries es) :=
  .mapping (keyed_named names h hnodup) hvalues

theorem measured_named {es : Entries} (names : List String) (h : es.map Prod.fst = names.map ofText)
    (hvalues : ∀ e ∈ es, Measured e.2) : Measured (ofEntries es) := by
  refine measured_mapping fun e he => ⟨?_, hvalues e he⟩
  have hk : e.1 ∈ names.map ofText := h ▸ List.mem_map_of_mem he
  obtain ⟨s, -, hs⟩ := List.mem_map.mp hk
  rw [← hs]
  exact measured_atom ⟨_, rfl⟩

theorem nestedEntries?_eq_declared {t : Value} {inner : Entries} (h : t.nestedEntries? = some inner) :
    inner = t.declared := by
  unfold nestedEntries? at h
  split at h
  · exact (Option.some.inj h).symm
  · exact (Option.some.inj h).symm
  · simp at h

end ArgSchema
