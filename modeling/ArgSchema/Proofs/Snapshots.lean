/-
# Schemas are snapshots

A schema that was built from plain data checks what it checked when it was built, whatever
becomes of the objects that it was built from (`schema_snapshot`). Normalizing copies every
mapping on the way to a type name or a class, which cannot change, and where it keeps a value
that is not understood no check looks at it. What is left of the author's objects are the keys,
and a key that can be looked up is compared by parts that cannot change, or by identity
(`Steady.key_write`).

One change at a time: it keeps the outcome of every check (`Lasting.write`), so that the fields
before and after fail alike (`failingKeys_alike`), and a run of steps is a sequence of changes
(`Session.run_keeps`).

Key definitions: `Steady`, `Lasting`, `Unmade`, `SameKey`, `SameField`, `Answers`,
`Schema.Becomes`.
-/
import ArgSchema.Proofs.BuiltSchemas
import ArgSchema.Proofs.Sessions

namespace ArgSchema

open Value

variable {kinds : Nat → Option ObjectKind} {room : Nat}

/-- The parts that the key of a value is made of. -/
def Value.keyParts : Value → List Value
  | .collection kind _ items =>
    match kind with
    | .tuple | .tupleSub | .point | .frozenset => items
    | _ => []
  | .typeName name => [name]
  | .nested fields => fields.map Prod.fst ++ fields.map Prod.snd
  | .instanceOf c => [c]
  | .fieldSpec isa optional => [isa, optional]
  | _ => []

/-- A value whose key is not made of how something is shown. -/
inductive Steady : Value → Prop where
  | intro {v : Value} (hself : ∀ raw, v ≠ .unsatisfiable raw) (hparts : ∀ w ∈ v.keyParts, Steady w) : Steady v

/-- A spec whose checks do not depend on objects that can change. -/
inductive Lasting : Value → Prop where
  | typeName {name : Value} {s : String} (hname : name.text? = some s) (optional : Bool) :
      Lasting (.fieldSpec (.typeName name) (ofBool optional))
  | instanceOf (c : Class) (optional : Bool) : Lasting (.fieldSpec (.instanceOf (.atom (.cls c))) (ofBool optional))
  | unsatisfiable (raw : Value) (optional : Bool) : Lasting (.fieldSpec (.unsatisfiable raw) (ofBool optional))
  | nested {fields : Entries} (hkeys : ∀ f ∈ fields, Steady f.1) (hspecs : ∀ f ∈ fields, Lasting f.2)
      (optional : Bool) : Lasting (.fieldSpec (.nested fields) (ofBool optional))

/-- Data without specs and constraints made by hand, at any depth. A schema in it was built from
such data once. -/
inductive Unmade : Value → Prop where
  | atom (a : Atom) : Unmade (.atom a)
  | collection {kind : CollectionKind} {id : Nat} {items : List Value} (hitems : ∀ x ∈ items, Unmade x) :
      Unmade (.collection kind id items)
  | mapping {kind : MappingKind} {id : Nat} {es : Entries} (hkeys : ∀ e ∈ es, Unmade e.1)
      (hvalues : ∀ e ∈ es, Unmade e.2) : Unmade (.mapping kind id es)
  | exception (c : Class) (id : Nat) (args files : List Value) : Unmade (.exception c id args files)
  | schema {id : Nat} {raw : Value} {fields : Entries} (hfields : ∀ f ∈ fields, Steady f.1 ∧ Lasting f.2) :
      Unmade (.schema id raw fields)

/-- A key after changes: it is looked up as before, and is the same key unless it holds objects
that can change. -/
structure SameKey (k k' : Value) : Prop where
  key : k'.key = k.key
  position : k'.int? = k.int?
  fixed : Fixed k → k' = k

/-- A field after changes: it is checked as before under the same key. -/
structure SameField (f f' : Value × Value) : Prop where
  key : SameKey f.1 f'.1
  check : ∀ v, (fieldResult v f'.2).result = (fieldResult v f.2).result

/-- Two results that are the same fault, or related. -/
inductive Answers {α β : Type} (R : α → β → Prop) : Except Fault α → Except Fault β → Prop where
  | ok {a : α} {b : β} (h : R a b) : Answers R (.ok a) (.ok b)
  | error (f : Fault) : Answers R (.error f) (.error f)

theorem Answers.bind {α β γ δ : Type} {R : α → β → Prop} {Q : γ → δ → Prop} {r : Except Fault α}
    {r' : Except Fault β} {f : α → Except Fault γ} {f' : β → Except Fault δ} (h : Answers R r r')
    (hf : ∀ a b, R a b → Answers Q (f a) (f' b)) : Answers Q (r >>= f) (r' >>= f') := by
  cases h with
  | ok h => exact hf _ _ h
  | error fault => exact .error fault

theorem Answers.bind_same {α γ δ : Type} {Q : γ → δ → Prop} (r : Except Fault α) {f : α → Except Fault γ}
    {f' : α → Except Fault δ} (hf : ∀ a, Answers Q (f a) (f' a)) : Answers Q (r >>= f) (r >>= f') := by
  cases r with
  | ok a => exact hf a
  | error fault => exact .error fault

theorem Answers.bind_eq {α β γ : Type} {R : α → β → Prop} {r : Except Fault α} {r' : Except Fault β}
    {f : α → Except Fault γ} {f' : β → Except Fault γ} (h : Answers R r r') (hf : ∀ a b, R a b → f' b = f a) :
    (r' >>= f') = (r >>= f) := by
  cases h with
  | ok h => exact hf _ _ h
  | error fault => rfl

/-! ### Keys -/

theorem keyParts_subset (v : Value) : v.keyParts ⊆ v.contents := by
  cases v with
  | collection kind id items => cases kind <;> first | exact List.Subset.refl _ | exact List.nil_subset _
  | typeName | nested | instanceOf | fieldSpec => exact List.Subset.refl _
  | _ => exact List.nil_subset _

theorem keyParts_mapContents (f : Value → Value) (v : Value) : (v.mapContents f).keyParts = v.keyParts.map f := by
  cases v with
  | collection kind id items => cases kind <;> rfl
  | nested fields => exact map_entries f fields
  | _ => rfl

theorem keys_map {f : Value → Value} : ∀ {xs : List Value}, (∀ x ∈ xs, (f x).key = x.key) → keys (xs.map f) = keys xs
  | [], _ => rfl
  | x :: rest, h => by
    obtain ⟨hx, hrest⟩ := List.forall_mem_cons.mp h
    rw [List.map_cons, keys, keys, hx, keys_map hrest]

theorem entryKeys_map {f : Value → Value} : ∀ {es : Entries}, (∀ e ∈ es, (f e.1).key = e.1.key ∧ (f e.2).key = e.2.key) →
    entryKeys (es.map (Prod.map f f)) = entryKeys es
  | [], _ => rfl
  | (k, x) :: rest, h => by
    obtain ⟨⟨hk, hx⟩, hrest⟩ := List.forall_mem_cons.mp h
    simp only at hk hx
    rw [List.map_cons, Prod.map_apply, entryKeys, entryKeys, hk, hx, entryKeys_map hrest]

/-- The key of a value with other contents, where the parts have the same keys. -/
theorem key_mapContents {f : Value → Value} {v : Value} (hself : ∀ raw, v ≠ .unsatisfiable raw)
    (h : ∀ w ∈ v.keyParts, (f w).key = w.key) : (v.mapContents f).key = v.key := by
  cases v with
  | atom a => rfl
  | collection kind id items =>
    cases kind with
    | tuple | tupleSub | point | frozenset =>
      have hkeys : keys (items.map f) = keys items := keys_map h
      simp [mapContents, Value.key, hkeys]
    | _ => simp [mapContents, Value.key]
  | typeName name => rw [mapContents, Value.key, Value.key, h name (List.mem_singleton_self name)]
  | instanceOf c => rw [mapContents, Value.key, Value.key, h c (List.mem_singleton_self c)]
  | nested fields =>
    rw [mapContents, Value.key, Value.key, List.length_map, entryKeys_map (forall_entries.mp h)]
  | fieldSpec isa optional =>
    obtain ⟨hisa, hoptional⟩ := List.forall_mem_cons.mp h
    rw [mapContents, Value.key, Value.key, hisa, List.forall_mem_singleton.mp hoptional]
  | unsatisfiable raw => exact absurd rfl (hself raw)
  | _ => simp [mapContents, Value.key]

theorem SameObject.key {v w : Value} (h : SameObject v w) : w.key = v.key := by
  cases h with
  | @collection kind hchange => cases kind <;> first | exact absurd hchange Bool.false_ne_true | rfl
  | mapping => rfl
  | bytes => rfl

/-- The key of an object that can change is its identity, if it has one. -/
theorem SameObject.keyParts {v w : Value} (h : SameObject v w) : w.keyParts = [] := by
  cases h with
  | @collection kind hchange => cases kind <;> first | exact absurd hchange Bool.false_ne_true | rfl
  | mapping => rfl
  | bytes => rfl

/-- **A change keeps steady keys.** -/
theorem Steady.key_write {v new : Value} {id : Nat} (h : Steady v) : WellKinded kinds v → Replaces kinds id new →
    (write id new v).key = v.key := by
  induction h with
  | @intro v hself _ ih =>
    intro hv hnew
    refine hv.write_congr hnew (fun w hw => hw.key) (key_mapContents hself fun w hw => ?_)
    exact ih w hw (hv.content (keyParts_subset v hw)) hnew

theorem Steady.write {v new : Value} {id : Nat} (h : Steady v) : WellKinded kinds v → Replaces kinds id new →
    Steady (write id new v) := by
  induction h with
  | @intro v hself _ ih =>
    intro hv hnew
    rw [write_eq]
    split
    · rename_i hid
      have hobject := hv.sameObject hnew hid
      refine .intro (fun raw hraw => ?_) (by simp [hobject.keyParts])
      subst hraw
      cases hobject
    · refine .intro (fun raw hraw => ?_) fun w hw => ?_
      · cases v with
        | unsatisfiable raw' => exact hself raw' rfl
        | _ => cases hraw
      · rw [keyParts_mapContents] at hw
        obtain ⟨x, hx, rfl⟩ := List.mem_map.mp hw
        exact ih x hx (hv.content (keyParts_subset v hx)) hnew

theorem int?_write {v new : Value} {id : Nat} (hv : WellKinded kinds v) (hnew : Replaces kinds id new) :
    (Value.write id new v).int? = v.int? := by
  refine hv.write_congr hnew (fun w hw => ?_) ?_
  · cases hw <;> rfl
  · cases v <;> rfl

theorem SameKey.refl (k : Value) : SameKey k k := ⟨rfl, rfl, fun _ => rfl⟩

theorem SameKey.trans {k k' k'' : Value} (h : SameKey k k') (h' : SameKey k' k'') : SameKey k k'' := by
  refine ⟨h'.key.trans h.key, h'.position.trans h.position, fun hk => ?_⟩
  have hfixed := h.fixed hk
  subst hfixed
  exact h'.fixed hk

theorem Steady.sameKey {k new : Value} {id : Nat} (h : Steady k) (hk : WellKinded kinds k)
    (hnew : Replaces kinds id new) : SameKey k (Value.write id new k) :=
  ⟨h.key_write hk hnew, int?_write hk hnew, fun hfixed => hfixed.write hk hnew⟩

theorem SameField.refl (f : Value × Value) : SameField f f := ⟨.refl f.1, fun _ => rfl⟩

theorem SameField.trans {f f' f'' : Value × Value} (h : SameField f f') (h' : SameField f' f'') : SameField f f'' :=
  ⟨h.key.trans h'.key, fun v => (h'.check v).trans (h.check v)⟩

theorem forall₂_isEmpty {α β : Type} {R : α → β → Prop} {xs : List α} {ys : List β} (h : List.Forall₂ R xs ys) :
    ys.isEmpty = xs.isEmpty := by
  cases h <;> rfl

theorem forall₂_trans {α : Type} {R : α → α → Prop} (hR : ∀ a b c, R a b → R b c → R a c) : ∀ {xs ys zs : List α},
    List.Forall₂ R xs ys → List.Forall₂ R ys zs → List.Forall₂ R xs zs
  | _, _, _, .nil, .nil => .nil
  | _, _, _, .cons h hs, .cons h' hs' => .cons (hR _ _ _ h h') (forall₂_trans hR hs hs')

/-! ### Fields -/

/-- Fields after changes fail alike, or stop with the same fault. -/
theorem failingKeys_alike {value value' : Value → Except Fault Value}
    (hvalue : ∀ k k', SameKey k k' → value' k' = value k) {fields fields' : Entries}
    (h : List.Forall₂ SameField fields fields') :
    Answers (List.Forall₂ SameKey) (failingKeys value fields).result (failingKeys value' fields').result := by
  induction h with
  | nil => exact .ok .nil
  | @cons f f' rest rest' hf _ ih =>
    obtain ⟨k, x⟩ := f
    obtain ⟨k', x'⟩ := f'
    have hk := hvalue k k' hf.key
    rw [failingKeys, failingKeys]
    simp only [Traced.result_bind, Traced.result_lift, Traced.result_pure, hk]
    refine Answers.bind_same _ fun v => ?_
    rw [hf.check v]
    refine Answers.bind_same _ fun outcome => Answers.bind_same _ fun ok => ih.bind fun keys keys' hkeys => ?_
    cases ok with
    | true => exact .ok hkeys
    | false => exact .ok (.cons hf.key hkeys)

theorem Lasting.isSpec {spec : Value} (h : Lasting spec) : ∃ isa optional, spec = .fieldSpec isa optional := by
  cases h with
  | typeName => exact ⟨_, _, rfl⟩
  | instanceOf => exact ⟨_, _, rfl⟩
  | unsatisfiable => exact ⟨_, _, rfl⟩
  | nested => exact ⟨_, _, rfl⟩

/-- The value of a mapping under a key depends on what the key is looked up by. -/
theorem valueAt_alike (vs : Entries) {k k' : Value} (h : SameKey k k') : valueAt vs k' = valueAt vs k := by
  rw [valueAt, valueAt, lookup?, lookup?, h.key]

/-- Nested fields are met as before. -/
theorem meets_nested_alike {v : Value} {fields fields' : Entries} (h : List.Forall₂ SameField fields fields')
    (hspecs : ∀ f ∈ fields, Lasting f.2) (hspecs' : ∀ f ∈ fields', Lasting f.2) :
    (meets v false (.nested fields')).result = (meets v false (.nested fields)).result := by
  rw [meets, meets, meetsFields, meetsFields]
  cases v.entries? with
  | none => rfl
  | some vs =>
    have hempty : fields'.isEmpty = fields.isEmpty := forall₂_isEmpty h
    have hkeys : Answers (List.Forall₂ SameKey) (failingKeys (valueAt vs) fields).result
        (failingKeys (valueAt vs) fields').result :=
      failingKeys_alike (fun k k' hk => valueAt_alike vs hk) h
    simp only [Traced.result_bind, Traced.result_lift, normalizeEntries_of_specs fun f hf => (hspecs f hf).isSpec,
      normalizeEntries_of_specs fun f hf => (hspecs' f hf).isSpec, ok_bind, hempty]
    split
    · rfl
    · simp only [Traced.result_bind, result_report, Traced.result_pure, ok_bind]
      exact hkeys.bind_eq fun keys keys' hsame => congrArg Except.ok (forall₂_isEmpty hsame)

/-- A field is checked as before if its constraint is met as before. -/
theorem fieldResult_alike {c c' : Value} (h : ∀ v, (meets v false c').result = (meets v false c).result)
    (optional v : Value) : (fieldResult v (.fieldSpec c' optional)).result = (fieldResult v (.fieldSpec c optional)).result := by
  rw [fieldResult, fieldResult, unlessNull, unlessNull]
  split
  · rfl
  · rw [Traced.result_bind, Traced.result_bind, h]

/-- A field after one change. -/
def changed (id : Nat) (new : Value) (f : Value × Value) : Value × Value :=
  (Value.write id new f.1, Value.write id new f.2)

/-- **A change keeps the outcome of every check** of a lasting spec, which stays lasting. -/
theorem Lasting.write {spec new : Value} {id : Nat} (h : Lasting spec) : WellKinded kinds spec → Replaces kinds id new →
    Lasting (Value.write id new spec) ∧
      ∀ v, (fieldResult v (Value.write id new spec)).result = (fieldResult v spec).result := by
  have hspec : ∀ c optional, Value.write id new (.fieldSpec c (ofBool optional)) =
      .fieldSpec (Value.write id new c) (ofBool optional) := fun c optional => rfl
  induction h with
  | @typeName name s hname optional =>
    intro _ _
    obtain ⟨kind, rfl⟩ := text?_eq_some hname
    exact ⟨.typeName hname optional, fun v => rfl⟩
  | instanceOf c optional => exact fun _ _ => ⟨.instanceOf c optional, fun v => rfl⟩
  | unsatisfiable raw optional =>
    intro _ _
    refine ⟨.unsatisfiable _ optional, fieldResult_alike (fun v => ?_) _⟩
    rw [Value.write, meets_unsatisfiable, meets_unsatisfiable]
  | @nested fields hkeys hspecs optional ih =>
    intro hwell hnew
    have hfields : Entries.WellKinded kinds fields :=
      forall_entries.mp fun w hw => (hwell.content List.mem_cons_self).content hw
    have hwrite : Value.write id new (.nested fields) = .nested (fields.map (changed id new)) := by
      rw [Value.write, writeEntries_eq]
      rfl
    have hkeys' : ∀ f ∈ fields.map (changed id new), Steady f.1 := by
      intro f' hf'
      obtain ⟨f, hf, rfl⟩ := List.mem_map.mp hf'
      exact (hkeys f hf).write (hfields f hf).1 hnew
    have hspecs' : ∀ f ∈ fields.map (changed id new), Lasting f.2 := by
      intro f' hf'
      obtain ⟨f, hf, rfl⟩ := List.mem_map.mp hf'
      exact (ih f hf (hfields f hf).2 hnew).1
    have halike : List.Forall₂ SameField fields (fields.map (changed id new)) := by
      rw [List.forall₂_map_right_iff, List.forall₂_same]
      exact fun f hf => ⟨(hkeys f hf).sameKey (hfields f hf).1 hnew, (ih f hf (hfields f hf).2 hnew).2⟩
    rw [hspec, hwrite]
    exact ⟨.nested hkeys' hspecs' optional,
      fieldResult_alike (fun v => meets_nested_alike halike hspecs hspecs') _⟩

/-! ### Plain data normalizes to lasting fields -/

theorem Unmade.steady {v : Value} (h : Unmade v) : Steady v := by
  induction h with
  | atom a => exact .intro (fun raw he => by cases he) (by simp [Value.keyParts])
  | @collection kind id items _ ih =>
    exact .intro (fun raw he => by cases he) fun w hw => ih w (keyParts_subset (.collection kind id items) hw)
  | mapping => exact .intro (fun raw he => by cases he) (by simp [Value.keyParts])
  | exception => exact .intro (fun raw he => by cases he) (by simp [Value.keyParts])
  | schema => exact .intro (fun raw he => by cases he) (by simp [Value.keyParts])

theorem Unmade.entries {kind : MappingKind} {id : Nat} {es : Entries} (h : Unmade (.mapping kind id es)) :
    ∀ e ∈ es, Unmade e.1 ∧ Unmade e.2 := by
  cases h with
  | mapping hkeys hvalues => exact fun e he => ⟨hkeys e he, hvalues e he⟩

theorem Unmade.askedType {x : Value} (h : Unmade x) : Unmade x.askedType := by
  cases x with
  | mapping kind id es =>
    rcases askedType_mapping kind id es with ⟨e, he, -, ht⟩ | ht
    · rw [ht]
      exact (h.entries e he).2
    · rw [ht]
      exact h
  | _ => exact h

theorem Unmade.toField_of_type {x spec : Value} (hx : Unmade x)
    (hc : ∀ c, x.askedType.toConstraint = .ok c → ∀ b, Lasting (.fieldSpec c (ofBool b))) (h : x.toField = .ok spec) :
    Lasting spec := by
  have hne : ∀ isa optional, x ≠ .fieldSpec isa optional := by
    rintro isa optional rfl
    cases hx
  obtain ⟨c, b, hct, -, rfl⟩ := (toField_eq_ok hne).mp h
  exact hc c hct b

theorem Unmade.leaf {t : Value} (h : Unmade t) (hleaf : t.nestedEntries? = none) (b : Bool) :
    Lasting (.fieldSpec t.leafConstraint (ofBool b)) := by
  cases h with
  | mapping => cases hleaf
  | schema => cases hleaf
  | collection => exact .unsatisfiable _ b
  | exception => exact .unsatisfiable _ b
  | atom a =>
    cases a with
    | text kind s =>
      cases kind with
      | plain => exact .typeName (s := s) rfl b
      | subclass => exact .typeName (s := s) rfl b
      | wrapper => exact .unsatisfiable _ b
    | cls c => exact .instanceOf c b
    | _ => exact .unsatisfiable _ b

theorem Unmade.toConstraint {t : Value} : Unmade t → ∀ c, t.toConstraint = .ok c → ∀ b, Lasting (.fieldSpec c (ofBool b)) := by
  refine type_induction (P := fun t => Unmade t → ∀ c, t.toConstraint = .ok c → ∀ b,
    Lasting (.fieldSpec c (ofBool b))) ?_ ?_ ?_ t
  · intro t hleaf h c hc b
    rw [toConstraint_leaf hleaf] at hc
    exact Except.ok.inj hc ▸ h.leaf hleaf b
  · intro id raw fields h c hc b
    rw [Value.toConstraint] at hc
    obtain rfl := Except.ok.inj hc
    cases h with
    | schema hfields => exact .nested (fun f hf => (hfields f hf).1) (fun f hf => (hfields f hf).2) b
  · intro kind id es ih h c hc b
    rw [Value.toConstraint] at hc
    obtain ⟨fields, hfields, hc⟩ := bind_eq_ok.mp hc
    obtain rfl := Except.ok.inj hc
    refine .nested (fun f hf => ?_) (fun f hf => ?_) b
    · obtain ⟨e, he, hkey, -⟩ := mem_normalizeEntries hfields f hf
      exact hkey ▸ (h.entries e he).1.steady
    · obtain ⟨e, he, -, hspec⟩ := mem_normalizeEntries hfields f hf
      exact (h.entries e he).2.toField_of_type (ih e he (h.entries e he).2.askedType) hspec

theorem Unmade.toField {x spec : Value} (hx : Unmade x) (h : x.toField = .ok spec) : Lasting spec :=
  hx.toField_of_type hx.askedType.toConstraint h

/-- The fields of plain data are lasting, under steady keys. -/
theorem Unmade.toFields {s : Value} {fields : Entries} (h : Unmade s) (hn : s.toFields = .ok fields) :
    ∀ f ∈ fields, Steady f.1 ∧ Lasting f.2 := by
  have hnone : ∀ f ∈ ([] : Entries), Steady f.1 ∧ Lasting f.2 := fun f hf => by cases hf
  cases h with
  | schema hfields => exact Except.ok.inj hn ▸ hfields
  | @mapping kind id es hkeys hvalues =>
    intro f hf
    obtain ⟨e, he, hkey, hspec⟩ := mem_normalizeEntries hn f hf
    exact ⟨hkey ▸ (hkeys e he).steady, (hvalues e he).toField hspec⟩
  | @collection kind id items hitems =>
    rw [Value.toFields] at hn
    split at hn
    · rw [normalizeItems_eq] at hn
      intro f hf
      obtain ⟨e, he, hkey, hspec⟩ := mem_normalizeEntries hn f hf
      obtain ⟨n, -, hn⟩ := key_indexed he
      refine ⟨?_, (hitems _ (mem_indexed he)).toField hspec⟩
      rw [hkey, hn]
      exact (Unmade.atom _).steady
    · exact Except.ok.inj hn ▸ hnone
  | atom a => exact Except.ok.inj hn ▸ hnone
  | exception => exact Except.ok.inj hn ▸ hnone

/-! ### Schemas -/

/-- What a schema becomes when objects in it change. -/
structure Schema.Becomes (S S' : Schema) : Prop where
  fields : List.Forall₂ SameField S.fields S'.fields
  lasting : ∀ f ∈ S'.fields, Steady f.1 ∧ Lasting f.2
  positional : S'.isPositional = S.isPositional

theorem isPositionalSpelling_write {raw new : Value} {id : Nat} (hraw : WellKinded kinds raw)
    (hnew : Replaces kinds id new) : (Value.write id new raw).isPositionalSpelling = raw.isPositionalSpelling := by
  refine hraw.write_congr hnew (fun w hw => ?_) ?_
  · cases hw with
    | @collection kind => cases kind <;> rfl
    | mapping => rfl
    | bytes => rfl
  · cases raw with
    | collection kind => cases kind <;> rfl
    | _ => rfl

/-- A schema keeps its checks, its mode and its keys through one change. -/
theorem Schema.Becomes.write {S S' : Schema} {id i : Nat} {new : Value} (h : S.Becomes S')
    (hwell : WellKinded kinds (S'.toValue id)) (hnew : Replaces kinds i new) :
    ∃ S'', Value.write i new (S'.toValue id) = S''.toValue id ∧ S.Becomes S'' := by
  have hfields : Entries.WellKinded kinds S'.fields := hwell.fields
  refine ⟨⟨Value.write i new S'.raw, S'.fields.map (changed i new), S'.path⟩, ?_, ?_, ?_, ?_⟩
  · rw [toValue, Value.write, writeEntries_eq]
    rfl
  · have hstep : List.Forall₂ SameField S'.fields (S'.fields.map (changed i new)) := by
      rw [List.forall₂_map_right_iff, List.forall₂_same]
      exact fun f hf => ⟨(h.lasting f hf).1.sameKey (hfields f hf).1 hnew,
        ((h.lasting f hf).2.write (hfields f hf).2 hnew).2⟩
    exact forall₂_trans (fun _ _ _ hf hf' => hf.trans hf') h.fields hstep
  · intro f' hf'
    obtain ⟨f, hf, rfl⟩ := List.mem_map.mp hf'
    exact ⟨(h.lasting f hf).1.write (hfields f hf).1 hnew, ((h.lasting f hf).2.write (hfields f hf).2 hnew).1⟩
  · exact (isPositionalSpelling_write (hwell.content List.mem_cons_self) hnew).trans h.positional

/-- Two outcomes with the same validity that report the same keys. -/
structure Outcome.SameReport (o o' : Outcome) : Prop where
  valid : o'.isValid = o.isValid
  structural : o'.structural = o.structural
  keys : List.Forall₂ SameKey o.failedKeys o'.failedKeys

theorem Outcome.SameReport.refl (o : Outcome) : o.SameReport o :=
  ⟨rfl, rfl, List.forall₂_same.mpr fun k _ => .refl k⟩

/-- Fields after changes are checked with the same report. -/
theorem checkFields_alike {mode : Mode} {v : Value} {value value' : Value → Except Fault Value}
    {fields fields' : Entries} (hvalue : ∀ k k', SameKey k k' → value' k' = value k)
    (h : List.Forall₂ SameField fields fields') :
    Answers Outcome.SameReport (checkFields mode v fields value).result (checkFields mode v fields' value').result := by
  rw [checkFields_result, checkFields_result]
  exact (failingKeys_alike hvalue h).bind fun keys keys' hkeys => .ok ⟨forall₂_isEmpty hkeys, rfl, hkeys⟩

/-- The item of a sequence under a key depends on the position that the key is. -/
theorem Sequence.get_alike (xs : Sequence) {k k' : Value} (h : SameKey k k') : xs.get k' = xs.get k := by
  unfold Sequence.get
  rw [h.position]

/-- **What a schema becomes validates like the schema.** -/
theorem Schema.Becomes.validate {S S' : Schema} (h : S.Becomes S') (v : Value) :
    Answers Outcome.SameReport (S.validate v).result (S'.validate v).result := by
  have hempty : S'.fields.isEmpty = S.fields.isEmpty := forall₂_isEmpty h.fields
  cases hmode : S.isPositional with
  | false =>
    rw [Schema.validate_named hmode, Schema.validate_named (h.positional.trans hmode)]
    cases hvs : v.entries? with
    | none =>
      rw [validateNamed_none hvs, validateNamed_none hvs]
      exact .ok (.refl _)
    | some vs =>
      rw [validateNamed_some hvs (s := S.toValue 0) rfl, validateNamed_some hvs (s := S'.toValue 0) rfl, hempty]
      split
      · exact .ok (.refl _)
      · exact checkFields_alike (fun k k' hk => valueAt_alike vs hk) h.fields
  | true =>
    cases hxs : v.sequence? with
    | none =>
      rw [Schema.validate_noSequence hmode hxs, Schema.validate_noSequence (h.positional.trans hmode) hxs]
      exact .ok (.refl _)
    | some xs =>
      rw [Schema.validate_sequence hmode hxs, Schema.validate_sequence (h.positional.trans hmode) hxs, hempty]
      split
      · exact .ok (.refl _)
      · exact checkFields_alike (fun k k' hk => xs.get_alike hk) h.fields

/-- The fields of a schema that was built are those of its raw value, copied or not. -/
theorem builtSchema_fields {id : Nat} {raw : Value} {copy : Option Nat} {S : Schema}
    (h : Session.builtSchema room id raw copy = .ok (S.toValue id)) :
    (if S.raw.text?.isSome then ofList [S.raw] else S.raw).toFields = .ok S.fields := by
  have hbuild : ∀ {raw : Value} {S₀ : Schema}, Schema.build raw none = .ok S₀ → S.toValue id = S₀.toValue id →
      (if S.raw.text?.isSome then ofList [S.raw] else S.raw).toFields = .ok S.fields := by
    intro raw S₀ hS₀ he
    obtain ⟨hraw, -, hfields⟩ := build_eq_ok.mp hS₀
    obtain ⟨-, hraw', hfields'⟩ := Value.schema.inj he
    rw [hraw', hfields', hraw]
    exact hfields
  obtain ⟨S₀, hS₀, he⟩ := Session.builtSchema_eq_ok.mp h
  cases copy with
  | none => exact hbuild hS₀ he
  | some i =>
    obtain ⟨es, -, hS₀⟩ := bind_eq_ok.mp hS₀
    exact hbuild hS₀ he

/-- **A schema is a snapshot.** A schema that a session builds of plain data has the same size, the
same mode and the same keys after any steps, whatever objects they change, and validates all values
as it did when it was built. -/
theorem schema_snapshot {s : Session} {steps : List Step} {name : String} {id : Nat} {raw : Value} {copy : Option Nat}
    {S : Schema} (hs : s.WellKinded kinds) (hbuild : (Step.build name id raw copy).WellKinded kinds)
    (hS : Session.builtSchema room id raw copy = .ok (S.toValue id)) (hraw : Unmade S.raw)
    (hsteps : ∀ st ∈ steps, st.WellKinded kinds ∧ st.name? ≠ some name) :
    ∃ S' : Schema, ((s.step room (.build name id raw copy)).1.run room steps).value? name = some (S'.toValue id) ∧
      S'.size = S.size ∧ S'.isPositional = S.isPositional ∧
      List.Forall₂ SameKey (S.fields.map Prod.fst) (S'.fields.map Prod.fst) ∧
      ∀ v, Answers Outcome.SameReport (S.validate v).result (S'.validate v).result := by
  have hfirst : (s.step room (.build name id raw copy)).1.find? name = some (.value (S.toValue id)) := by
    show (s.assignResult name (Session.builtSchema room id raw copy)).1.find? name = _
    rw [hS]
    exact List.lookup_cons_self
  have hspelled : Unmade (if S.raw.text?.isSome then ofList [S.raw] else S.raw) := by
    split
    · exact .collection (List.forall_mem_singleton.mpr hraw)
    · exact hraw
  have hfields := hspelled.toFields (builtSchema_fields hS)
  have hbecomes : S.Becomes S := ⟨List.forall₂_same.mpr fun f _ => .refl f, hfields, rfl⟩
  obtain ⟨b, hb, S', rfl, hS'⟩ := Session.run_keeps
    (P := fun b => ∃ S' : Schema, b = .value (S'.toValue id) ∧ S.Becomes S')
    (fun b i new hb hP hnew => by
      obtain ⟨S', rfl, hS'⟩ := hP
      obtain ⟨S'', hwrite, hS''⟩ := hS'.write (hb _ (List.mem_singleton_self _)) hnew
      exact ⟨S'', congrArg Binding.value hwrite, hS''⟩)
    (Session.step_wellKinded hs hbuild) hsteps hfirst ⟨S, rfl, hbecomes⟩
  refine ⟨S', ?_, hS'.fields.length_eq.symm, hS'.positional, ?_, hS'.validate⟩
  · rw [Session.value?, hb]
  · rw [List.forall₂_map_left_iff, List.forall₂_map_right_iff]
    exact hS'.fields.imp fun f f' hf => hf.key

/-- A schema of users with tags, built from mappings and a list that are changed later on: inside,
then by taking the users away. The schema still asks for them. -/
theorem schema_snapshot_user : ∃ (s : Session) (S S' : Schema) (d : Value) (steps : List Step),
    d = .mapping .dict 1 [(ofText "user", .mapping .dict 2 [(ofText "age", ofText "natural")]),
      (ofText "tags", .collection .list 3 [])] ∧
    s = ⟨[("d", .value d)]⟩ ∧ Schema.build d none = .ok S ∧
    steps = [.edit "d" 4 [ofText "user"] (.put (ofText "age") (ofText "string")),
      .edit "d" 4 [ofText "tags"] (.append (ofText "x")), .edit "d" 4 [] (.remove (ofText "user"))] ∧
    ((s.step 1000 (.build "users" 5 d none)).1.run 1000 steps).value? "d" =
      some (.mapping .dict 1 [(ofText "tags", .collection .list 3 [ofText "x"])]) ∧
    ((s.step 1000 (.build "users" 5 d none)).1.run 1000 steps).value? "users" = some (S'.toValue 5) ∧
    ∀ v, Answers Outcome.SameReport (S.validate v).result (S'.validate v).result := by
  let kinds : Nat → Option ObjectKind := fun i =>
    if i = 1 ∨ i = 2 then some (.mapping .dict) else if i = 3 ∨ i = 4 then some (.collection .list) else none
  let user : Value := .mapping .dict 2 [(ofText "age", ofText "natural")]
  let d : Value := .mapping .dict 1 [(ofText "user", user), (ofText "tags", .collection .list 3 [])]
  have htext : ∀ t, WellKinded kinds (ofText t) := wellKinded_ofText
  have hd : WellKinded kinds d := by
    have huser : WellKinded kinds user := wellKinded_mapping rfl (List.forall_mem_singleton.mpr ⟨htext _, htext _⟩)
    refine wellKinded_mapping rfl fun e he => ?_
    rcases List.mem_pair.mp he with rfl | rfl
    · exact ⟨htext _, huser⟩
    · exact ⟨htext _, wellKinded_collection rfl (by simp)⟩
  have hunmade : Unmade d := by
    have huser : Unmade user :=
      .mapping (List.forall_mem_singleton.mpr (.atom _)) (List.forall_mem_singleton.mpr (.atom _))
    refine .mapping (fun e he => ?_) fun e he => ?_
    · rcases List.mem_pair.mp he with rfl | rfl <;> exact .atom _
    · rcases List.mem_pair.mp he with rfl | rfl
      · exact huser
      · exact .collection (by simp)
  have hs : (Session.empty.run 1000 [.assign "d" d]).WellKinded kinds :=
    Session.run_wellKinded Session.wellKinded_empty (List.forall_mem_singleton.mpr hd)
  have hsteps : ∀ st ∈ [Step.edit "d" 4 [ofText "user"] (.put (ofText "age") (ofText "string")),
      .edit "d" 4 [ofText "tags"] (.append (ofText "x")), .edit "d" 4 [] (.remove (ofText "user"))],
      st.WellKinded kinds ∧ st.name? ≠ some "users" := by
    have hedit : ∀ {path e}, (∀ k ∈ path, WellKinded kinds k) → (∀ v ∈ Edit.contents e, WellKinded kinds v) →
        (Step.edit "d" 4 path e).WellKinded kinds ∧ (Step.edit "d" 4 path e).name? ≠ some "users" :=
      fun hpath he => ⟨⟨rfl, hpath, he⟩, by simp [Step.name?]⟩
    simp only [List.forall_mem_cons, List.not_mem_nil, false_implies, implies_true, and_true]
    refine ⟨hedit ?_ ?_, hedit ?_ ?_, hedit ?_ ?_⟩ <;> simp [Edit.contents, htext]
  have hbuild : (Step.build "users" 5 d none).WellKinded kinds := ⟨hd, by simp⟩
  obtain ⟨S', hS', -, -, -, hsame⟩ := schema_snapshot hs hbuild rfl hunmade hsteps
  exact ⟨_, _, S', d, _, rfl, rfl, rfl, rfl, rfl, hS', hsame⟩

end ArgSchema
