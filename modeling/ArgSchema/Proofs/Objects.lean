/-
# Objects and their identities

A change replaces the contents of one object in every value that holds the object, found by its
identity (`write_eq`). What keeps this from doing harm is that an identity stands for one object,
so that a list is replaced by a list and a mapping by a mapping of its kind. A table of kinds
says so: each object that can change has the kind that is noted for its identity, and for the
identities of all others none is noted (`WellKinded`). Then a change replaces an object by the
same one with other contents (`WellKinded.sameObject`), and leaves values alone that hold no object
that can change (`Fixed.write`).

What is made of well-kinded values is well-kinded: their changes, their items, the fields they
normalize to. The lemmas go function by function, from normalization to editing.

Key definitions: `ObjectKind`, `Value.identity?`, `Value.kind?`, `Value.contents`, `WellKinded`,
`Replaces`, `SameObject`, `Fixed`.
-/
import ArgSchema.Proofs.Requests
import ArgSchema.Value.Edit

namespace ArgSchema

open Value

/-- The kinds of objects that can change. -/
inductive ObjectKind where
  | collection (kind : CollectionKind)
  | mapping (kind : MappingKind)
  | bytes
  deriving DecidableEq, Repr

namespace Value

/-- The identity that a change finds a value by. -/
def identity? : Value → Option Nat
  | .atom (.bytes (.mutable id) _) | .collection _ id _ | .mapping _ id _ => some id
  | _ => none

/-- The kind of a value that can change. -/
def kind? : Value → Option ObjectKind
  | .atom (.bytes (.mutable _) _) => some .bytes
  | .collection kind _ _ => if kind.canChange then some (.collection kind) else none
  | .mapping kind _ _ => if kind = .proxy then none else some (.mapping kind)
  | _ => none

/-- What a value holds: its parts, and the fields of a schema. -/
def contents : Value → List Value
  | .schema _ raw fields => raw :: (fields.map Prod.fst ++ fields.map Prod.snd)
  | v => v.parts

/-- A value with other contents. -/
def mapContents (f : Value → Value) : Value → Value
  | .atom a => .atom a
  | .collection kind id items => .collection kind id (items.map f)
  | .mapping kind id es => .mapping kind id (es.map (Prod.map f f))
  | .exception c id args files => .exception c id (args.map f) (files.map f)
  | .typeName name => .typeName (f name)
  | .nested fields => .nested (fields.map (Prod.map f f))
  | .instanceOf c => .instanceOf (f c)
  | .unsatisfiable raw => .unsatisfiable (f raw)
  | .fieldSpec isa optional => .fieldSpec (f isa) (f optional)
  | .schema id raw fields => .schema id (f raw) (fields.map (Prod.map f f))

end Value

/-- A value all of whose objects have the kind that is noted for their identity. -/
inductive WellKinded (kinds : Nat → Option ObjectKind) : Value → Prop where
  | intro {v : Value} (hself : ∀ id, v.identity? = some id → kinds id = v.kind?)
      (hcontents : ∀ w ∈ v.contents, WellKinded kinds w) : WellKinded kinds v

/-- What the object `id` becomes by a change: an object of its kind. -/
structure Replaces (kinds : Nat → Option ObjectKind) (id : Nat) (new : Value) : Prop where
  wellKinded : WellKinded kinds new
  identity : new.identity? = some id
  changeable : new.kind? ≠ none

/-- A value that holds no object that can change. -/
inductive Fixed : Value → Prop where
  | intro {v : Value} (hself : v.kind? = none) (hcontents : ∀ w ∈ v.contents, Fixed w) : Fixed v

/-- Entries with well-kinded keys and values. -/
def Entries.WellKinded (kinds : Nat → Option ObjectKind) (es : Entries) : Prop :=
  ∀ e ∈ es, ArgSchema.WellKinded kinds e.1 ∧ ArgSchema.WellKinded kinds e.2

variable {kinds : Nat → Option ObjectKind}

/-! ### Contents -/

theorem forall_entries {P : Value → Prop} {es : Entries} :
    (∀ w ∈ es.map Prod.fst ++ es.map Prod.snd, P w) ↔ ∀ e ∈ es, P e.1 ∧ P e.2 := by
  simp only [List.mem_append, List.mem_map]
  constructor
  · exact fun h e he => ⟨h _ (.inl ⟨e, he, rfl⟩), h _ (.inr ⟨e, he, rfl⟩)⟩
  · rintro h w (⟨e, he, rfl⟩ | ⟨e, he, rfl⟩)
    · exact (h e he).1
    · exact (h e he).2

theorem map_entries (f : Value → Value) (es : Entries) :
    (es.map (Prod.map f f)).map Prod.fst ++ (es.map (Prod.map f f)).map Prod.snd =
      (es.map Prod.fst ++ es.map Prod.snd).map f := by
  simp [Function.comp_def]

@[simp] theorem identity?_mapContents (f : Value → Value) (v : Value) : (v.mapContents f).identity? = v.identity? := by
  cases v <;> rfl

@[simp] theorem kind?_mapContents (f : Value → Value) (v : Value) : (v.mapContents f).kind? = v.kind? := by
  cases v <;> rfl

@[simp] theorem contents_mapContents (f : Value → Value) (v : Value) :
    (v.mapContents f).contents = v.contents.map f := by
  cases v with
  | atom a => rfl
  | mapping kind id es => exact map_entries f es
  | nested fields => exact map_entries f fields
  | schema id raw fields =>
    rw [mapContents, contents, map_entries, contents]
    rfl
  | exception c id args files => exact (List.map_append ..).symm
  | _ => rfl

theorem mapContents_eq_self {f : Value → Value} {v : Value} (h : ∀ w ∈ v.contents, f w = w) : v.mapContents f = v := by
  have hentries : ∀ {es : Entries}, (∀ w ∈ es.map Prod.fst ++ es.map Prod.snd, f w = w) →
      es.map (Prod.map f f) = es := by
    intro es hes
    rw [forall_entries] at hes
    conv_rhs => rw [← List.map_id es]
    exact List.map_congr_left fun e he => Prod.ext (hes e he).1 (hes e he).2
  have hitems : ∀ xs : List Value, (∀ w ∈ xs, f w = w) → xs.map f = xs := by
    intro xs hxs
    conv_rhs => rw [← List.map_id xs]
    exact List.map_congr_left hxs
  cases v with
  | atom a => rfl
  | collection kind id items => rw [mapContents, hitems items h]
  | mapping kind id es => rw [mapContents, hentries h]
  | exception c id args files =>
    rw [mapContents, hitems args fun w hw => h w (List.mem_append_left _ hw),
      hitems files fun w hw => h w (List.mem_append_right _ hw)]
  | nested fields => rw [mapContents, hentries h]
  | schema id raw fields =>
    obtain ⟨hraw, hfields⟩ := List.forall_mem_cons.mp h
    rw [mapContents, hraw, hentries hfields]
  | fieldSpec isa optional =>
    obtain ⟨hisa, hoptional⟩ := List.forall_mem_cons.mp h
    rw [mapContents, hisa, List.forall_mem_singleton.mp hoptional]
  | typeName name => rw [mapContents, List.forall_mem_singleton.mp h]
  | instanceOf c => rw [mapContents, List.forall_mem_singleton.mp h]
  | unsatisfiable raw => rw [mapContents, List.forall_mem_singleton.mp h]

/-! ### Changes -/

theorem writeItems_eq (id : Nat) (new : Value) : ∀ xs : List Value, writeItems id new xs = xs.map (write id new)
  | [] => rfl
  | x :: rest => by rw [writeItems, writeItems_eq id new rest, List.map_cons]

theorem writeEntries_eq (id : Nat) (new : Value) : ∀ es : Entries,
    writeEntries id new es = es.map (Prod.map (write id new) (write id new))
  | [] => rfl
  | (k, x) :: rest => by
    rw [writeEntries, writeEntries_eq id new rest, List.map_cons]
    rfl

/-- **A change puts the new object wherever the identity is.** -/
theorem write_eq (id : Nat) (new v : Value) :
    write id new v = if v.identity? = some id then new else v.mapContents (write id new) := by
  cases v with
  | atom a =>
    cases a with
    | bytes kind data =>
      cases kind with
      | mutable i => simp [write, identity?, mapContents]
      | _ => rfl
    | _ => rfl
  | collection kind i items => simp [write, identity?, mapContents, writeItems_eq]
  | mapping kind i es => simp [write, identity?, mapContents, writeEntries_eq]
  | exception c i args files => simp [write, identity?, mapContents, writeItems_eq]
  | nested fields => simp [write, identity?, mapContents, writeEntries_eq]
  | schema i raw fields => simp [write, identity?, mapContents, writeEntries_eq]
  | _ => simp [write, identity?, mapContents]

/-! ### Kinds -/

theorem WellKinded.self {v : Value} (h : WellKinded kinds v) {id : Nat} (hid : v.identity? = some id) :
    kinds id = v.kind? := by
  cases h with
  | intro hself _ => exact hself id hid

theorem WellKinded.content {v w : Value} (h : WellKinded kinds v) (hw : w ∈ v.contents) : WellKinded kinds w := by
  cases h with
  | intro _ hcontents => exact hcontents w hw

/-- An object is replaced by one of its kind. -/
theorem WellKinded.kind?_of_identity {v new : Value} {id : Nat} (h : WellKinded kinds v)
    (hnew : Replaces kinds id new) (hid : v.identity? = some id) : v.kind? = new.kind? := by
  rw [← h.self hid, hnew.wellKinded.self hnew.identity]

theorem kind?_cases {v : Value} {k : ObjectKind} (h : v.kind? = some k) :
    (∃ kind id items, k = .collection kind ∧ kind.canChange = true ∧ v = .collection kind id items) ∨
    (∃ kind id es, k = .mapping kind ∧ v = .mapping kind id es) ∨
    ∃ id data, k = .bytes ∧ v = .atom (.bytes (.mutable id) data) := by
  cases v with
  | collection kind id items =>
    rw [kind?] at h
    split at h
    · rename_i hchange
      exact .inl ⟨kind, id, items, (Option.some.inj h).symm, hchange, rfl⟩
    · cases h
  | mapping kind id es =>
    rw [kind?] at h
    split at h
    · cases h
    · exact .inr (.inl ⟨kind, id, es, (Option.some.inj h).symm, rfl⟩)
  | atom a =>
    cases a with
    | bytes kind data =>
      cases kind with
      | mutable id => exact .inr (.inr ⟨id, data, (Option.some.inj h).symm, rfl⟩)
      | _ => cases h
    | _ => cases h
  | _ => cases h

/-- The same object with other contents. -/
inductive SameObject : Value → Value → Prop where
  | collection {kind : CollectionKind} (hchange : kind.canChange = true) (id : Nat) (items items' : List Value) :
      SameObject (.collection kind id items) (.collection kind id items')
  | mapping (kind : MappingKind) (id : Nat) (es es' : Entries) : SameObject (.mapping kind id es) (.mapping kind id es')
  | bytes (id : Nat) (data data' : List Nat) :
      SameObject (.atom (.bytes (.mutable id) data)) (.atom (.bytes (.mutable id) data'))

/-- **What has the identity of a change becomes the same object with other contents.** -/
theorem WellKinded.sameObject {v new : Value} {id : Nat} (h : WellKinded kinds v) (hnew : Replaces kinds id new)
    (hid : v.identity? = some id) : SameObject v new := by
  have hkind := h.kind?_of_identity hnew hid
  have hidentity := hid.trans hnew.identity.symm
  obtain ⟨k, hk⟩ := Option.ne_none_iff_exists'.mp hnew.changeable
  rcases kind?_cases (hkind.trans hk) with ⟨kind, i, items, rfl, hchange, rfl⟩ | ⟨kind, i, es, rfl, rfl⟩ | ⟨i, data, rfl, rfl⟩
  · rcases kind?_cases hk with ⟨_, j, items', hkind', -, rfl⟩ | ⟨_, _, _, hkind', -⟩ | ⟨_, _, hkind', -⟩
    · obtain rfl := ObjectKind.collection.inj hkind'
      obtain rfl := Option.some.inj hidentity
      exact .collection hchange i items items'
    · cases hkind'
    · cases hkind'
  · rcases kind?_cases hk with ⟨_, _, _, hkind', -, -⟩ | ⟨_, j, es', hkind', rfl⟩ | ⟨_, _, hkind', -⟩
    · cases hkind'
    · obtain rfl := ObjectKind.mapping.inj hkind'
      obtain rfl := Option.some.inj hidentity
      exact .mapping kind i es es'
    · cases hkind'
  · rcases kind?_cases hk with ⟨_, _, _, hkind', -, -⟩ | ⟨_, _, _, hkind', -⟩ | ⟨j, data', -, rfl⟩
    · cases hkind'
    · cases hkind'
    · obtain rfl := Option.some.inj hidentity
      exact .bytes i data data'

/-- A property that says nothing of the contents is kept by a change. -/
theorem WellKinded.write_congr {α : Type} {p : Value → α} {v new : Value} {id : Nat} (hv : WellKinded kinds v)
    (hnew : Replaces kinds id new) (hobject : ∀ w, SameObject v w → p w = p v)
    (hcontents : p (v.mapContents (write id new)) = p v) : p (write id new v) = p v := by
  rw [write_eq]
  split
  · rename_i hid
    exact hobject new (hv.sameObject hnew hid)
  · exact hcontents

/-- **Values stay well-kinded.** -/
theorem WellKinded.write {v new : Value} {id : Nat} (h : WellKinded kinds v) (hnew : Replaces kinds id new) :
    WellKinded kinds (write id new v) := by
  induction h with
  | @intro v hself _ ih =>
    rw [write_eq]
    split
    · exact hnew.wellKinded
    · refine ⟨fun i hi => ?_, fun w hw => ?_⟩
      · rw [identity?_mapContents] at hi
        rw [kind?_mapContents, hself i hi]
      · rw [contents_mapContents] at hw
        obtain ⟨x, hx, rfl⟩ := List.mem_map.mp hw
        exact ih x hx

/-- A change leaves a value alone that holds no object that can change. -/
theorem Fixed.write {v new : Value} {id : Nat} (h : Fixed v) (hv : WellKinded kinds v) (hnew : Replaces kinds id new) :
    write id new v = v := by
  induction h with
  | @intro v hself _ ih =>
    have hne : v.identity? ≠ some id := fun hid =>
      hnew.changeable (hself ▸ (hv.kind?_of_identity hnew hid).symm)
    rw [write_eq, if_neg hne]
    exact mapContents_eq_self fun w hw => ih w hw (hv.content hw)

/-- What has no identity is well-kinded if its contents are. -/
theorem wellKinded_of_contents {v : Value} (hid : v.identity? = none) (h : ∀ w ∈ v.contents, WellKinded kinds w) :
    WellKinded kinds v := by
  refine .intro (fun id hid' => ?_) h
  rw [hid] at hid'
  cases hid'

theorem wellKinded_atom {a : Atom} (hid : (Value.atom a).identity? = none) : WellKinded kinds (.atom a) :=
  wellKinded_of_contents hid (by simp [contents, parts])

theorem wellKinded_ofText (s : String) : WellKinded kinds (ofText s) := wellKinded_atom rfl

theorem wellKinded_ofInt (n : Int) : WellKinded kinds (ofInt n) := wellKinded_atom rfl

theorem wellKinded_nested {fields : Entries} (h : Entries.WellKinded kinds fields) : WellKinded kinds (.nested fields) :=
  wellKinded_of_contents rfl (forall_entries.mpr h)

theorem wellKinded_fieldSpec {isa optional : Value} (hisa : WellKinded kinds isa) (hoptional : WellKinded kinds optional) :
    WellKinded kinds (.fieldSpec isa optional) :=
  wellKinded_of_contents rfl (List.forall_mem_cons.mpr ⟨hisa, List.forall_mem_singleton.mpr hoptional⟩)

theorem wellKinded_mapping {kind : MappingKind} {id : Nat} {es : Entries}
    (hkind : kinds id = if kind = .proxy then none else some (.mapping kind)) (h : Entries.WellKinded kinds es) :
    WellKinded kinds (.mapping kind id es) := by
  refine ⟨fun i hi => ?_, forall_entries.mpr h⟩
  obtain rfl := Option.some.inj hi
  exact hkind

theorem wellKinded_collection {kind : CollectionKind} {id : Nat} {items : List Value}
    (hkind : kinds id = if kind.canChange then some (.collection kind) else none)
    (h : ∀ x ∈ items, WellKinded kinds x) : WellKinded kinds (.collection kind id items) := by
  refine ⟨fun i hi => ?_, h⟩
  obtain rfl := Option.some.inj hi
  exact hkind

theorem WellKinded.entries {kind : MappingKind} {id : Nat} {es : Entries} (h : WellKinded kinds (.mapping kind id es)) :
    Entries.WellKinded kinds es :=
  forall_entries.mp fun _ hw => h.content hw

theorem WellKinded.fields {id : Nat} {raw : Value} {fields : Entries} (h : WellKinded kinds (.schema id raw fields)) :
    Entries.WellKinded kinds fields :=
  forall_entries.mp fun _ hw => h.content (List.mem_cons_of_mem _ hw)

/-! ### Normal forms -/

theorem WellKinded.leafConstraint {t : Value} (h : WellKinded kinds t) : WellKinded kinds t.leafConstraint := by
  have hwrap : ∀ {v : Value}, v.identity? = none → v.contents = [t] → WellKinded kinds v := fun hid hcontents =>
    wellKinded_of_contents hid (hcontents ▸ List.forall_mem_singleton.mpr h)
  unfold Value.leafConstraint
  split
  · exact hwrap rfl rfl
  · exact hwrap rfl rfl
  · exact hwrap rfl rfl
  · exact h
  · exact h
  · exact h
  · exact h
  · exact hwrap rfl rfl

theorem WellKinded.askedType {x : Value} (h : WellKinded kinds x) : WellKinded kinds x.askedType := by
  cases x with
  | mapping kind id es =>
    rcases askedType_mapping kind id es with ⟨e, he, -, ht⟩ | ht
    · rw [ht]
      exact (h.entries e he).2
    · rw [ht]
      exact h
  | _ => exact h

/-- An entry stands for a well-kinded spec if the type that it asks for does. -/
theorem WellKinded.toField_of_type {x spec : Value} (hx : WellKinded kinds x)
    (hc : ∀ c, x.askedType.toConstraint = .ok c → WellKinded kinds c) (h : x.toField = .ok spec) :
    WellKinded kinds spec := by
  by_cases hready : ∃ isa optional, x = .fieldSpec isa optional
  · obtain ⟨isa, optional, rfl⟩ := hready
    rw [toField] at h
    exact Except.ok.inj h ▸ hx
  · have hne : ∀ isa optional, x ≠ .fieldSpec isa optional := fun isa optional he => hready ⟨isa, optional, he⟩
    obtain ⟨c, b, hct, -, rfl⟩ := (toField_eq_ok hne).mp h
    exact wellKinded_fieldSpec (hc c hct) (wellKinded_atom rfl)

theorem wellKinded_normalizeEntries {es fields : Entries}
    (h : ∀ e ∈ es, WellKinded kinds e.1 ∧ ∀ spec, e.2.toField = .ok spec → WellKinded kinds spec)
    (hn : normalizeEntries es = .ok fields) : Entries.WellKinded kinds fields := by
  intro f hf
  obtain ⟨e, he, hkey, hspec⟩ := mem_normalizeEntries hn f hf
  exact ⟨hkey ▸ (h e he).1, (h e he).2 _ hspec⟩

theorem WellKinded.toConstraint {t : Value} : WellKinded kinds t → ∀ c, t.toConstraint = .ok c → WellKinded kinds c := by
  refine type_induction (P := fun t => WellKinded kinds t → ∀ c, t.toConstraint = .ok c → WellKinded kinds c) ?_ ?_ ?_ t
  · intro t hleaf h c hc
    rw [toConstraint_leaf hleaf] at hc
    exact Except.ok.inj hc ▸ h.leafConstraint
  · intro id raw fields h c hc
    rw [Value.toConstraint] at hc
    exact Except.ok.inj hc ▸ wellKinded_nested h.fields
  · intro kind id es ih h c hc
    rw [Value.toConstraint] at hc
    obtain ⟨fields, hfields, hc⟩ := bind_eq_ok.mp hc
    refine Except.ok.inj hc ▸ wellKinded_nested (wellKinded_normalizeEntries (fun e he => ?_) hfields)
    obtain ⟨hkey, hvalue⟩ := h.entries e he
    exact ⟨hkey, fun spec => hvalue.toField_of_type (ih e he hvalue.askedType)⟩

theorem WellKinded.toField {x spec : Value} (hx : WellKinded kinds x) (h : x.toField = .ok spec) :
    WellKinded kinds spec :=
  hx.toField_of_type hx.askedType.toConstraint h

theorem Entries.WellKinded.normalize {es fields : Entries} (h : Entries.WellKinded kinds es)
    (hn : normalizeEntries es = .ok fields) : Entries.WellKinded kinds fields :=
  wellKinded_normalizeEntries (fun e he => ⟨(h e he).1, fun _ => (h e he).2.toField⟩) hn

theorem wellKinded_indexed {items : List Value} (h : ∀ x ∈ items, WellKinded kinds x) (i : Nat) :
    Entries.WellKinded kinds (indexed i items) := by
  intro e he
  obtain ⟨n, -, hkey⟩ := key_indexed he
  exact ⟨hkey ▸ wellKinded_ofInt n, h _ (mem_indexed he)⟩

/-- The fields of a schema, of whose contents it is enough to know. -/
theorem wellKinded_toFields {s : Value} {fields : Entries} (h : ∀ w ∈ s.contents, WellKinded kinds w)
    (hn : s.toFields = .ok fields) : Entries.WellKinded kinds fields := by
  have hnone : Entries.WellKinded kinds [] := fun e he => by cases he
  cases s with
  | schema id raw fields' =>
    rw [← Except.ok.inj hn]
    exact forall_entries.mp fun w hw => h w (List.mem_cons_of_mem _ hw)
  | mapping kind id es =>
    have hes : Entries.WellKinded kinds es := forall_entries.mp h
    exact hes.normalize hn
  | collection kind id items =>
    rw [toFields] at hn
    split at hn
    · rw [normalizeItems_eq] at hn
      exact (wellKinded_indexed h 0).normalize hn
    · exact Except.ok.inj hn ▸ hnone
  | _ => exact Except.ok.inj hn ▸ hnone

end ArgSchema
