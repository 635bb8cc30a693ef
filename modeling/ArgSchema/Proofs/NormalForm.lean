/-
# Normal forms

Normalizing keeps the keys of a schema with their order and puts a field spec under each
of them (`normalizeEntries_eq_ok`); what it gives is not changed by normalizing it again
(`normalizeEntries_idem`). Of a measured value it always gives a result
(`Measured.toFields_total`). Of plain data each spec of the result is settled: it holds a
type name that is text, a class, something unsupported or settled fields again, with a
boolean for its flag (`Plain.settled_fields`).

Key definitions: `Settled`.
-/
import ArgSchema.Proofs.PlainData

namespace ArgSchema

open Value

/-! ### Field by field -/

/-- The fields are the entries in their order, each entry with the spec it stands for. -/
theorem normalizeEntries_eq_ok : ∀ {es fields : Entries}, normalizeEntries es = .ok fields ↔
    List.Forall₂ (fun e f => f.1 = e.1 ∧ e.2.toField = .ok f.2) es fields
  | [], fields => by
    rw [List.forall₂_nil_left_iff, normalizeEntries, Except.ok.injEq]
    exact eq_comm
  | (k, x) :: rest, fields => by
    rw [List.forall₂_cons_left_iff, normalizeEntries, bind_eq_ok]
    constructor
    · rintro ⟨spec, hspec, h⟩
      obtain ⟨fs, hfs, he⟩ := bind_eq_ok.mp h
      obtain rfl : (k, spec) :: fs = fields := by simpa using he
      exact ⟨(k, spec), fs, ⟨rfl, hspec⟩, normalizeEntries_eq_ok.mp hfs, rfl⟩
    · rintro ⟨⟨k', spec⟩, fs, ⟨rfl, hspec⟩, hfs, rfl⟩
      exact ⟨spec, hspec, bind_eq_ok.mpr ⟨fs, normalizeEntries_eq_ok.mpr hfs, rfl⟩⟩

theorem keys_normalizeEntries {es fields : Entries} (h : normalizeEntries es = .ok fields) :
    fields.map Prod.fst = es.map Prod.fst := by
  have h2 := normalizeEntries_eq_ok.mp h
  induction h2 with
  | nil => rfl
  | cons hd tl ih =>
    rw [List.map_cons, List.map_cons, hd.1, ih (normalizeEntries_eq_ok.mpr tl)]

/-- There are no fields just if there are no entries. -/
theorem normalizeEntries_eq_nil {es fields : Entries} (h : normalizeEntries es = .ok fields) : fields = [] ↔ es = [] := by
  rw [← List.map_eq_nil_iff (f := Prod.fst), keys_normalizeEntries h, List.map_eq_nil_iff]

theorem mem_normalizeEntries {es fields : Entries} (h : normalizeEntries es = .ok fields) :
    ∀ f ∈ fields, ∃ e ∈ es, f.1 = e.1 ∧ e.2.toField = .ok f.2 := by
  have h2 := normalizeEntries_eq_ok.mp h
  intro f hf
  obtain ⟨i, hi, rfl⟩ := List.getElem_of_mem hf
  have hi' : i < es.length := by rw [h2.length_eq]; exact hi
  exact ⟨es[i], List.getElem_mem hi', h2.get hi' hi⟩

theorem mem_of_normalizeEntries {es fields : Entries} (h : normalizeEntries es = .ok fields) :
    ∀ e ∈ es, ∃ f ∈ fields, f.1 = e.1 ∧ e.2.toField = .ok f.2 := by
  have h2 := normalizeEntries_eq_ok.mp h
  intro e he
  obtain ⟨i, hi, rfl⟩ := List.getElem_of_mem he
  have hi' : i < fields.length := by rw [← h2.length_eq]; exact hi
  exact ⟨fields[i], List.getElem_mem hi', h2.get hi hi'⟩

theorem normalizeEntries_total : ∀ {es : Entries}, (∀ e ∈ es, ∃ spec, e.2.toField = .ok spec) →
    ∃ fields, normalizeEntries es = .ok fields
  | [], _ => ⟨[], by simp [normalizeEntries]⟩
  | (k, x) :: rest, h => by
    obtain ⟨spec, hspec⟩ := h (k, x) List.mem_cons_self
    obtain ⟨fs, hfs⟩ := normalizeEntries_total fun e he => h e (List.mem_cons_of_mem _ he)
    exact ⟨(k, spec) :: fs, by rw [normalizeEntries, hspec, ok_bind, hfs, ok_bind]⟩

/-- There is a normal form just if every entry has one. -/
theorem exists_normalizeEntries_iff {es : Entries} :
    (∃ fields, normalizeEntries es = .ok fields) ↔ ∀ e ∈ es, ∃ spec, e.2.toField = .ok spec := by
  refine ⟨?_, normalizeEntries_total⟩
  rintro ⟨fields, hn⟩ e he
  obtain ⟨f, -, -, hf⟩ := mem_of_normalizeEntries hn e he
  exact ⟨f.2, hf⟩

/-- Whatever an entry is, it stands for a field spec. -/
theorem toField_fieldSpec {x spec : Value} (h : x.toField = .ok spec) :
    ∃ isa optional, spec = .fieldSpec isa optional := by
  cases x with
  | mapping kind id es =>
    rw [toField, constraintOfIsa_eq] at h
    cases hisa : Entries.field? "isa" es with
    | some t =>
      simp only [hisa, Option.map_some] at h
      obtain ⟨isa, -, h⟩ := bind_eq_ok.mp h
      obtain ⟨b, -, h⟩ := bind_eq_ok.mp h
      exact ⟨isa, ofBool b, by simpa using h.symm⟩
    | none =>
      simp only [hisa, Option.map_none] at h
      obtain ⟨fs, -, h⟩ := bind_eq_ok.mp h
      exact ⟨.nested fs, ofBool false, by simpa using h.symm⟩
  | _ => exact ⟨_, _, by simpa [toField] using h.symm⟩

/-- Field specs are normal already. -/
theorem normalizeEntries_of_specs : ∀ {fields : Entries},
    (∀ f ∈ fields, ∃ isa optional, f.2 = .fieldSpec isa optional) → normalizeEntries fields = .ok fields
  | [], _ => by simp [normalizeEntries]
  | (k, x) :: rest, h => by
    obtain ⟨isa, optional, rfl⟩ := h (k, x) List.mem_cons_self
    rw [normalizeEntries, toField, ok_bind,
      normalizeEntries_of_specs fun f hf => h f (List.mem_cons_of_mem _ hf), ok_bind]

/-- **Normalizing twice is normalizing once.** -/
theorem normalizeEntries_idem {es fields : Entries} (h : normalizeEntries es = .ok fields) :
    normalizeEntries fields = .ok fields := by
  refine normalizeEntries_of_specs fun f hf => ?_
  obtain ⟨e, -, -, he⟩ := mem_normalizeEntries h f hf
  exact toField_fieldSpec he

theorem Entries.Keyed.normalize {es fields : Entries} (hk : Entries.Keyed es)
    (h : normalizeEntries es = .ok fields) : Entries.Keyed fields := by
  have hkeys := keys_normalizeEntries h
  exact ⟨by rw [hkeys]; exact hk.hashable, by rw [hkeys]; exact hk.distinct⟩

/-! ### What plain data normalizes to -/

/-- A spec that comes from plain data. -/
inductive Settled : Value → Prop where
  | typeName {name : Value} {s : String} (hname : name.text? = some s) (optional : Bool) :
      Settled (.fieldSpec (.typeName name) (ofBool optional))
  | instanceOf (c : Class) (optional : Bool) :
      Settled (.fieldSpec (.instanceOf (.atom (.cls c))) (ofBool optional))
  | unsatisfiable (raw : Value) (optional : Bool) :
      Settled (.fieldSpec (.unsatisfiable raw) (ofBool optional))
  | nested {fields : Entries} (hkeys : Entries.Keyed fields) (hspecs : ∀ f ∈ fields, Settled f.2)
      (optional : Bool) : Settled (.fieldSpec (.nested fields) (ofBool optional))

/-- The flag of a spec may be any other. -/
theorem Settled.reflag {c optional : Value} (ha : Settled (.fieldSpec c optional)) (b : Bool) :
    Settled (.fieldSpec c (ofBool b)) := by
  cases ha with
  | typeName hname => exact .typeName hname b
  | instanceOf c => exact .instanceOf c b
  | unsatisfiable raw => exact .unsatisfiable raw b
  | nested hkeys hspecs => exact .nested hkeys hspecs b

/-- A type without entries is a name, a class, or nothing that is understood. -/
theorem Plain.settled_leaf {t : Value} (ht : Plain t) (h : t.nestedEntries? = none) (b : Bool) :
    Settled (.fieldSpec t.leafConstraint (ofBool b)) := by
  cases ht with
  | mapping => simp [nestedEntries?] at h
  | schema => simp [nestedEntries?] at h
  | collection => exact .unsatisfiable _ b
  | exception => exact .unsatisfiable _ b
  | atom a =>
    cases a with
    | text kind s =>
      cases kind with
      | plain => exact .typeName (s := s) rfl b
      | subclass => exact .typeName (s := s) rfl b
      | wrapper => exact .unsatisfiable _ b
    | cls c => exact .instanceOf c b
    | _ => exact .unsatisfiable _ b

theorem Plain.settled {t : Value} (ht : Plain t) :
    ∀ c, t.toConstraint = .ok c → ∀ b, Settled (.fieldSpec c (ofBool b)) := by
  refine Plain.induction
    (P := fun t => ∀ c, t.toConstraint = .ok c → ∀ b, Settled (.fieldSpec c (ofBool b))) ?_ ?_ ht
  · intro t ht h c hc b
    rw [toConstraint_leaf h] at hc
    obtain rfl : _ = c := by simpa using hc
    exact ht.settled_leaf h b
  · intro t inner ht h ih c hc b
    rw [ht.toConstraint_nested h] at hc
    obtain ⟨fields, hfields, hc⟩ := bind_eq_ok.mp hc
    obtain rfl : _ = c := by simpa using hc
    obtain rfl := nestedEntries?_eq_declared h
    refine .nested (ht.keyed.normalize hfields) (fun f hf => ?_) b
    obtain ⟨e, he, -, hspec⟩ := mem_normalizeEntries hfields f hf
    obtain ⟨c, b, hc, -, hf⟩ := (toField_eq_ok (ht.declared e he).not_fieldSpec).mp hspec
    rw [hf]
    exact ih e he c hc b

theorem Plain.settled_field {x spec : Value} (hx : Plain x) (h : x.toField = .ok spec) : Settled spec := by
  obtain ⟨c, b, hc, -, rfl⟩ := (toField_eq_ok hx.not_fieldSpec).mp h
  exact hx.askedType.settled c hc b

/-- The fields of a plain schema are settled, under keys that can be looked up. -/
theorem Plain.settled_fields {s : Value} {fields : Entries} (hs : Plain s) (h : s.toFields = .ok fields) :
    Entries.Keyed fields ∧ ∀ f ∈ fields, Settled f.2 := by
  rw [hs.toFields_eq] at h
  refine ⟨hs.keyed.normalize h, fun f hf => ?_⟩
  obtain ⟨e, he, -, hspec⟩ := mem_normalizeEntries h f hf
  exact (hs.declared e he).settled_field hspec

/-! ### What measured values normalize to -/

/-- An entry stands for a field spec if the type that it asks for stands for a constraint. -/
theorem Measured.toField_of_type {x : Value} (hx : Measured x) (h : ∃ c, x.askedType.toConstraint = .ok c) :
    ∃ spec, x.toField = .ok spec := by
  by_cases hready : ∃ isa optional, x = .fieldSpec isa optional
  · obtain ⟨isa, optional, rfl⟩ := hready
    exact ⟨_, by rw [toField]⟩
  · obtain ⟨c, hc⟩ := h
    obtain ⟨b, hb⟩ := hx.flag
    have hne : ∀ isa optional, x ≠ .fieldSpec isa optional := fun isa optional he => hready ⟨isa, optional, he⟩
    exact ⟨_, (toField_eq_ok hne).mpr ⟨c, b, hc, hb, rfl⟩⟩

theorem Measured.toConstraint_total {t : Value} : Measured t → ∃ c, t.toConstraint = .ok c := by
  refine type_induction (P := fun t => Measured t → ∃ c, t.toConstraint = .ok c) ?_ ?_ ?_ t
  · exact fun t h _ => ⟨_, toConstraint_leaf h⟩
  · exact fun id raw fields _ => ⟨.nested fields, by rw [toConstraint]⟩
  · intro kind id es ih hm
    obtain ⟨fields, hfields⟩ := normalizeEntries_total fun e he =>
      (hm.entry he).toField_of_type (ih e he (hm.entry he).askedType)
    exact ⟨.nested fields, by rw [toConstraint, hfields, ok_bind]⟩

theorem Measured.toField_total {x : Value} (hx : Measured x) : ∃ spec, x.toField = .ok spec :=
  hx.toField_of_type hx.askedType.toConstraint_total

/-- **A measured value has a normal form.** -/
theorem Measured.toFields_total {s : Value} (hs : Measured s) : ∃ fields, s.toFields = .ok fields := by
  cases s with
  | mapping kind id es => exact normalizeEntries_total fun e he => (hs.entry he).toField_total
  | collection kind id items =>
    rw [toFields]
    split
    · rw [normalizeItems_eq]
      exact normalizeEntries_total fun e he => (hs.part (mem_indexed he)).toField_total
    · exact ⟨[], rfl⟩
  | schema id raw fields => exact ⟨fields, rfl⟩
  | _ => exact ⟨[], rfl⟩

end ArgSchema
