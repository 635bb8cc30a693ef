/-
# Ready-made specs

Normalizing does not look into what is ready-made: a field spec in the place of an entry,
a constraint in the place of a type, the fields of a schema object. What it makes itself
is in normal form and described. So the fields of any schema are in normal form, or have
descriptions, just if every ready-made spec in the schema is or has (`toFields_iff`), and
`toFields_readyMade` says what follows for summaries.

That a field spec is ready-made does not make it normal: one that holds the name of a
type, instead of the constraint, is kept, is met by nothing but null, and its description
is a fault (`readyMade_name`).

Key definitions: `NormalSpec`, `ReadyMade`, `SpecProperty`.
-/
import ArgSchema.Proofs.Requests

namespace ArgSchema

open Value

/-- A field spec that holds one of the four constraints; nested fields are such specs again. -/
inductive NormalSpec : Value → Prop where
  | typeName (name optional : Value) : NormalSpec (.fieldSpec (.typeName name) optional)
  | instanceOf (c optional : Value) : NormalSpec (.fieldSpec (.instanceOf c) optional)
  | unsatisfiable (raw optional : Value) : NormalSpec (.fieldSpec (.unsatisfiable raw) optional)
  | nested {fields : Entries} (hspecs : ∀ f ∈ fields, NormalSpec f.2) (optional : Value) :
      NormalSpec (.fieldSpec (.nested fields) optional)

/-- A constraint, whatever it holds. -/
def Value.IsConstraint : Value → Prop
  | .typeName _ | .nested _ | .instanceOf _ | .unsatisfiable _ => True
  | _ => False

/-- A spec stands ready-made in a part of a schema, at any depth. -/
inductive ReadyMade : Place → Value → Value → Prop where
  /-- A field spec is an entry. -/
  | spec (isa optional : Value) : ReadyMade .entry (.fieldSpec isa optional) (.fieldSpec isa optional)
  /-- A constraint is a type; it stands for a spec with any flag. -/
  | constraint {t : Value} (ht : t.IsConstraint) : ReadyMade .type t (.fieldSpec t (ofBool false))
  /-- A schema object holds its fields. -/
  | field {p : Place} (hp : p ≠ .entry) {id : Nat} {raw : Value} {fields : Entries} {f : Value × Value}
      (hf : f ∈ fields) : ReadyMade p (.schema id raw fields) f.2
  /-- It stands in the type that an entry asks for. -/
  | asked {x spec : Value} (h : ReadyMade .type x.askedType spec) : ReadyMade .entry x spec
  /-- It stands in an entry of a mapping. -/
  | inMapping {p : Place} (hp : p ≠ .entry) {kind : MappingKind} {id : Nat} {es : Entries} {e : Value × Value}
      {spec : Value} (he : e ∈ es) (h : ReadyMade .entry e.2 spec) : ReadyMade p (.mapping kind id es) spec
  /-- It stands in an item of a list or a tuple. -/
  | inList {kind : CollectionKind} (hkind : kind.isListOrTuple) {id : Nat} {items : List Value} {x spec : Value}
      (hx : x ∈ items) (h : ReadyMade .entry x spec) : ReadyMade .whole (.collection kind id items) spec

/-! ### Properties of specs

A property is taken over from the ready-made specs to all fields if it holds of what
normalizing makes itself, and of nested fields just if it holds of each of them. Normal
form is such a property, and so is having a description. -/

/-- A property that every named type, class and unsupported value has, that nested fields
have just if each of them has it, and that does not depend on the flag. -/
structure SpecProperty (P : Value → Prop) : Prop where
  typeName : ∀ name optional, P (.fieldSpec (.typeName name) optional)
  cls : ∀ c optional, P (.fieldSpec (.instanceOf (.atom (.cls c))) optional)
  unsatisfiable : ∀ raw optional, P (.fieldSpec (.unsatisfiable raw) optional)
  nested : ∀ fields optional, P (.fieldSpec (.nested fields) optional) ↔ ∀ f ∈ fields, P f.2
  flag : ∀ isa optional optional', P (.fieldSpec isa optional) → P (.fieldSpec isa optional')

theorem normalSpec_property : SpecProperty NormalSpec where
  typeName := .typeName
  cls c := .instanceOf (.atom (.cls c))
  unsatisfiable := .unsatisfiable
  nested fields optional := by
    constructor
    · intro h
      cases h with
      | nested hspecs => exact hspecs
    · exact fun h => .nested h optional
  flag isa optional optional' h := by
    cases h with
    | typeName name => exact .typeName name optional'
    | instanceOf c => exact .instanceOf c optional'
    | unsatisfiable raw => exact .unsatisfiable raw optional'
    | nested hspecs => exact .nested hspecs optional'

theorem described_property : SpecProperty Described where
  typeName := described_typeName
  cls := described_class
  unsatisfiable := described_unsatisfiable
  nested _ _ := described_nested
  flag _ _ _ h := described_fieldSpec.mpr (described_fieldSpec.mp h)

/-! ### Types -/

theorem readyMade_leaf {t spec : Value} (h : t.nestedEntries? = none) :
    ReadyMade .type t spec ↔ t.IsConstraint ∧ spec = .fieldSpec t (ofBool false) := by
  constructor
  · intro hr
    cases hr with
    | constraint ht => exact ⟨ht, rfl⟩
    | field => simp [nestedEntries?] at h
    | inMapping => simp [nestedEntries?] at h
  · rintro ⟨ht, rfl⟩
    exact .constraint ht

theorem leafConstraint_of_isConstraint {t : Value} (h : t.IsConstraint) : t.leafConstraint = t := by
  cases t with
  | typeName | nested | instanceOf | unsatisfiable => rfl
  | _ => exact h.elim

section

variable {P : Value → Prop}

/-- What normalizing makes of a type without parts has the property. -/
theorem SpecProperty.leaf (hP : SpecProperty P) {t : Value} (h : ¬ t.IsConstraint) (optional : Value) :
    P (.fieldSpec t.leafConstraint optional) := by
  cases t with
  | atom a =>
    cases a with
    | text kind s =>
      cases kind with
      | plain => exact hP.typeName _ optional
      | subclass => exact hP.typeName _ optional
      | wrapper => exact hP.unsatisfiable _ optional
    | cls c => exact hP.cls c optional
    | _ => exact hP.unsatisfiable _ optional
  | typeName | nested | instanceOf | unsatisfiable => exact absurd trivial h
  | _ => exact hP.unsatisfiable _ optional

/-- The constraint of a type has the property just if what stands ready-made in the type has it. -/
def Carries (P : Value → Prop) (t : Value) : Prop :=
  ∀ c, t.toConstraint = .ok c → ∀ optional,
    (P (.fieldSpec c optional) ↔ ∀ spec, ReadyMade .type t spec → P spec)

theorem entry_iff {x spec : Value} (h : x.toField = .ok spec) (ht : Carries P x.askedType) :
    P spec ↔ ∀ r, ReadyMade .entry x r → P r := by
  by_cases hx : ∃ isa optional, x = .fieldSpec isa optional
  · obtain ⟨isa, optional, rfl⟩ := hx
    obtain rfl : Value.fieldSpec isa optional = spec := by simpa [toField] using h
    constructor
    · intro hp r hr
      cases hr with
      | spec => exact hp
      | asked hr => exact ((readyMade_leaf rfl).mp hr).1.elim
    · exact fun h => h _ (.spec isa optional)
  · have hne : ∀ isa optional, x ≠ .fieldSpec isa optional := fun isa optional he => hx ⟨isa, optional, he⟩
    obtain ⟨c, b, hc, -, rfl⟩ := (toField_eq_ok hne).mp h
    rw [ht c hc]
    constructor
    · intro h r hr
      cases hr with
      | spec isa optional => exact absurd rfl (hne isa optional)
      | asked hr => exact h r hr
      | field hp => exact absurd rfl hp
      | inMapping hp => exact absurd rfl hp
    · exact fun h r hr => h r (.asked hr)

theorem entries_iff {es fields : Entries} (h : normalizeEntries es = .ok fields)
    (ht : ∀ e ∈ es, Carries P e.2.askedType) :
    (∀ f ∈ fields, P f.2) ↔ ∀ e ∈ es, ∀ r, ReadyMade .entry e.2 r → P r := by
  constructor
  · intro hf e he
    obtain ⟨f, hmem, -, hspec⟩ := mem_of_normalizeEntries h e he
    exact (entry_iff hspec (ht e he)).mp (hf f hmem)
  · intro he f hf
    obtain ⟨e, hmem, -, hspec⟩ := mem_normalizeEntries h f hf
    exact (entry_iff hspec (ht e hmem)).mpr (he e hmem)

theorem carries (hP : SpecProperty P) (t : Value) : Carries P t := by
  refine type_induction (P := Carries P) (fun t ht => ?_) (fun id raw fields => ?_) (fun kind id es ih => ?_) t
  · intro c hc optional
    rw [toConstraint_leaf ht] at hc
    obtain rfl : t.leafConstraint = c := by simpa using hc
    by_cases hconstraint : t.IsConstraint
    · rw [leafConstraint_of_isConstraint hconstraint]
      constructor
      · intro h r hr
        obtain ⟨-, rfl⟩ := (readyMade_leaf ht).mp hr
        exact hP.flag _ _ _ h
      · exact fun h => hP.flag _ _ _ (h _ (.constraint hconstraint))
    · refine iff_of_true (hP.leaf hconstraint optional) fun r hr => ?_
      exact absurd ((readyMade_leaf ht).mp hr).1 hconstraint
  · intro c hc optional
    obtain rfl : Value.nested fields = c := by simpa [toConstraint] using hc
    rw [hP.nested]
    constructor
    · intro h r hr
      cases hr with
      | constraint ht => exact ht.elim
      | field _ hf => exact h _ hf
    · exact fun h f hf => h _ (.field (by decide) hf)
  · intro c hc optional
    rw [toConstraint, bind_eq_ok] at hc
    obtain ⟨fields, hfields, hc⟩ := hc
    obtain rfl : Value.nested fields = c := by simpa using hc
    rw [hP.nested, entries_iff hfields ih]
    constructor
    · intro h r hr
      cases hr with
      | constraint ht => exact ht.elim
      | inMapping _ he hr => exact h _ he r hr
    · exact fun h e he r hr => h r (.inMapping (by decide) he hr)

/-- **What is ready-made decides**: every field of a schema has the property just if every
spec has it that stands ready-made in the schema. -/
theorem toFields_iff (hP : SpecProperty P) {s : Value} {fields : Entries} (h : s.toFields = .ok fields) :
    (∀ f ∈ fields, P f.2) ↔ ∀ spec, ReadyMade .whole s spec → P spec := by
  cases s with
  | mapping kind id es =>
    rw [entries_iff h fun e _ => carries hP e.2.askedType]
    constructor
    · intro he r hr
      cases hr with
      | inMapping _ hmem hr => exact he _ hmem r hr
    · exact fun hr e he r hr' => hr r (.inMapping (by decide) he hr')
  | collection kind id items =>
    by_cases hk : kind.isListOrTuple
    · rw [toFields, if_pos hk, normalizeItems_eq] at h
      rw [entries_iff h fun e _ => carries hP e.2.askedType]
      constructor
      · intro he r hr
        cases hr with
        | inList _ hx hr =>
          obtain ⟨e, hmem, rfl⟩ := exists_indexed hx 0
          exact he _ hmem r hr
      · exact fun hr e he r hr' => hr r (.inList hk (mem_indexed he) hr')
    · obtain rfl : [] = fields := by simpa [toFields, hk] using h
      refine iff_of_true (by simp) fun r hr => ?_
      cases hr with
      | inList hkind => exact absurd hkind hk
  | schema id raw entries =>
    obtain rfl : entries = fields := by simpa [toFields] using h
    constructor
    · intro hf r hr
      cases hr with
      | field _ hmem => exact hf _ hmem
    · exact fun hr f hf => hr _ (.field (by decide) hf)
  | _ =>
    obtain rfl : [] = fields := by simpa [toFields] using h
    refine iff_of_true (by simp) fun r hr => ?_
    cases hr

end

/-! ### Normal form and summaries -/

/-- **Fields are as normal as what is ready-made.** The fields of a schema are all in normal
form just if every ready-made spec in it is, and have descriptions just if every ready-made
spec has one. The summary of an outcome is a text just if the fields that failed can be
told, which they can if the ready-made specs have descriptions. -/
theorem toFields_readyMade {s : Value} {fields : Entries} (h : s.toFields = .ok fields) :
    ((∀ f ∈ fields, NormalSpec f.2) ↔ ∀ spec, ReadyMade .whole s spec → NormalSpec spec) ∧
    ((∀ f ∈ fields, Described f.2) ↔ ∀ spec, ReadyMade .whole s spec → Described spec) ∧
    (Entries.Keyed fields → ∀ (r : Request) (o : Outcome), r.schema = s → r.run.result = .ok o →
      ((∃ text, o.errorString = .ok (ofText text)) ↔ ∀ f ∈ o.fields, f.1 ∈ o.failedKeys → o.CanTell f) ∧
      ((∀ spec, ReadyMade .whole s spec → Described spec) → Measured r.values →
        ∃ text, o.errorString = .ok (ofText text))) := by
  have hdescribed := toFields_iff described_property h
  refine ⟨toFields_iff normalSpec_property h, hdescribed, ?_⟩
  rintro hk r o rfl ho
  refine ⟨Request.errorString_iff ho h hk, fun hready hv => ?_⟩
  exact Request.errorString_text ho hv h hk (hdescribed.mpr hready)

/-- A ready-made spec that holds the constraint is kept, and is all that is ready-made here. -/
theorem toFields_readyMade_typeName :
    (ofEntries [(ofText "a", .fieldSpec (.typeName (ofText "string")) (ofBool true))]).toFields =
        .ok [(ofText "a", .fieldSpec (.typeName (ofText "string")) (ofBool true))] ∧
      ∀ spec, ReadyMade .whole
        (ofEntries [(ofText "a", .fieldSpec (.typeName (ofText "string")) (ofBool true))]) spec → NormalSpec spec := by
  have hfields : (ofEntries [(ofText "a", .fieldSpec (.typeName (ofText "string")) (ofBool true))]).toFields =
      .ok [(ofText "a", .fieldSpec (.typeName (ofText "string")) (ofBool true))] := rfl
  exact ⟨hfields, (toFields_readyMade hfields).1.mp (List.forall_mem_singleton.mpr (.typeName _ _))⟩

/-- A ready-made spec that holds the name is kept as well: text fails it, and the outcome has
no summary. -/
theorem readyMade_name :
    (ofEntries [(ofText "a", .fieldSpec (ofText "string") (ofBool false))]).toFields =
        .ok [(ofText "a", .fieldSpec (ofText "string") (ofBool false))] ∧
      ¬ NormalSpec (.fieldSpec (ofText "string") (ofBool false)) ∧
      ∃ o, (validateNamed (ofEntries [(ofText "a", ofText "b")])
          (ofEntries [(ofText "a", .fieldSpec (ofText "string") (ofBool false))])).result = .ok o ∧
        o.failedKeys = [ofText "a"] ∧ o.errorString = .error (.missingPart (ofText "string") "raw") := by
  refine ⟨rfl, fun h => ?_, _, rfl, rfl, rfl⟩
  cases h

end ArgSchema
