/-
# Checks of settled fields

A measured value is checked against a settled spec without a fault, and the outcome is a
boolean, `passes` (`Settled.result`). So the keys that fail are those of the fields that
do not pass (`failingKeys_result`), each for itself, and nested fields pass if there are
any and all of them do (`meets_nested`).

Key definitions: `Value.held`, `Value.passes`.
-/
import ArgSchema.Proofs.NormalForm

namespace ArgSchema

open Value

/-! ### Results without their records -/

namespace Traced

variable {α β : Type}

@[simp] theorem result_pure (a : α) : (Pure.pure a : Traced α).result = .ok a := rfl

@[simp] theorem result_lift (r : Except Fault α) : (Traced.lift r).result = r := rfl

@[simp] theorem result_bind (x : Traced α) (f : α → Traced β) :
    (x >>= f).result = (x.result >>= fun a => (f a).result) := by
  show (Traced.bind x f).result = _
  unfold Traced.bind
  cases x.result with
  | ok a => rfl
  | error e => rfl

end Traced

@[simp] theorem result_report (mode : Mode) (keys : List Value) : (report mode keys).result = .ok () := by
  unfold report
  split <;> rfl

/-! ### The value of a field -/

namespace Value

/-- The value that a mapping holds under a key, null if there is none. -/
def held (vs : Entries) (key : Value) : Value := (valueAt vs key).toOption.getD null

/-- Whether a value passes a field. -/
def passes (v spec : Value) : Bool :=
  match (fieldResult v spec).result with
  | .ok (.atom (.bool b)) => b
  | _ => false

end Value

theorem valueAt_eq {vs : Entries} {key : Value} (h : ∃ k, key.key = .ok k) :
    valueAt vs key = .ok (held vs key) := by
  obtain ⟨k, hk⟩ := h
  simp [held, valueAt, lookup?, hk, Except.toOption]

theorem measured_null : Measured null := measured_atom ⟨none, rfl⟩

theorem Measured.held {v : Value} {vs : Entries} (h : Measured v) (hv : v.entries? = some vs) (key : Value) :
    Measured (held vs key) := by
  cases v with
  | mapping kind id es =>
    obtain rfl : es = vs := by simpa [entries?] using hv
    unfold Value.held valueAt lookup?
    cases key.key with
    | error e => exact measured_null
    | ok k =>
      cases hf : Entries.find? k es with
      | none =>
        rw [ok_bind, ok_bind, hf]
        exact measured_null
      | some w =>
        obtain ⟨e, he, -, rfl⟩ := find?_mem hf
        rw [ok_bind, ok_bind, hf]
        exact h.entry he
  | _ => simp [entries?] at hv

/-! ### One constraint -/

theorem isNull_iff {v : Value} : v.isNull = true ↔ v = null := by
  constructor
  · intro h
    unfold isNull at h
    split at h
    · rfl
    · cases h
  · rintro rfl
    rfl

theorem Measured.isOfType {v : Value} (h : Measured v) (name : Value) : ∃ b, v.isOfType name = .ok b := by
  obtain ⟨e, he⟩ := h.isEmpty
  unfold Value.isOfType isOfTypeNamed
  split
  · split
    · rename_i t ht
      cases t with
      | empty => exact ⟨e, he⟩
      | _ => exact ⟨_, rfl⟩
    · exact ⟨false, rfl⟩
  · exact ⟨false, rfl⟩

theorem meets_typeName (v name : Value) (b : Bool) :
    (meets v b (.typeName name)).result = v.isOfType name := by
  simp [meets, meetsLeaf]

theorem meets_instanceOf (v : Value) (c : Class) (b : Bool) :
    (meets v b (.instanceOf (.atom (.cls c)))).result = .ok (v.isA c) := by
  simp [meets, meetsLeaf, isInstance]

theorem meets_unsatisfiable (v raw : Value) (b : Bool) :
    (meets v b (.unsatisfiable raw)).result = .ok false := by
  cases b <;> simp [meets, meetsLeaf, leafConstraint]

/-- A field is decided by its constraint, unless its value is null. -/
theorem fieldResult_of_meets {v c : Value} {b : Bool} (h : (meets v false c).result = .ok b) (optional : Bool) :
    (fieldResult v (.fieldSpec c (ofBool optional))).result = .ok (ofBool (if v.isNull then optional else b)) := by
  rw [fieldResult, unlessNull]
  by_cases hv : v.isNull
  · simp [hv]
  · simp [hv, h]

theorem passes_of_result {v spec : Value} {b : Bool} (h : (fieldResult v spec).result = .ok (ofBool b)) :
    passes v spec = b := by
  simp [passes, h, ofBool]

theorem passes_of_meets {v c : Value} {b : Bool} (h : (meets v false c).result = .ok b) (optional : Bool) :
    passes v (.fieldSpec c (ofBool optional)) = if v.isNull then optional else b :=
  passes_of_result (fieldResult_of_meets h optional)

/-- Null passes a field if the field is optional. -/
theorem passes_null {v : Value} (h : v.isNull = true) (c : Value) (optional : Bool) :
    passes v (.fieldSpec c (ofBool optional)) = optional := by
  refine passes_of_result ?_
  rw [fieldResult, unlessNull, if_pos h]
  rfl

/-! ### Fields -/

theorem truth_ofBool (b : Bool) : (ofBool b).truth = .ok b := by
  cases b <;> rfl

/-- **The keys that fail** are those of the fields that do not pass. -/
theorem failingKeys_result {value : Value → Except Fault Value} {w : Value → Value} : ∀ {fields : Entries},
    (∀ f ∈ fields, value f.1 = .ok (w f.1)) →
    (∀ f ∈ fields, (fieldResult (w f.1) f.2).result = .ok (ofBool (passes (w f.1) f.2))) →
    (failingKeys value fields).result = .ok ((fields.filter fun f => !passes (w f.1) f.2).map Prod.fst)
  | [], _, _ => by simp [failingKeys]
  | (k, x) :: rest, hvalue, hfield => by
    have hv := hvalue (k, x) List.mem_cons_self
    have hf := hfield (k, x) List.mem_cons_self
    have ih := failingKeys_result (fun f hf => hvalue f (List.mem_cons_of_mem _ hf))
      (fun f hf' => hfield f (List.mem_cons_of_mem _ hf'))
    simp only at hv hf
    rw [failingKeys]
    simp only [Traced.result_bind, Traced.result_lift, hv, ok_bind, hf, truth_ofBool, ih]
    cases hp : passes (w k) x <;> simp [hp]

theorem meetsFields_none {v : Value} (h : v.entries? = none) (fields : Entries)
    (failing : Entries → Traced (List Value)) : (meetsFields v fields failing).result = .ok false := by
  simp [meetsFields, h]

theorem meets_nested_none {v : Value} (h : v.entries? = none) (fields : Entries) :
    (meets v false (.nested fields)).result = .ok false := by
  rw [meets]
  exact meetsFields_none h fields _

theorem meetsFields_some {v : Value} {vs fields fs : Entries} {failing : Entries → Traced (List Value)}
    {keys : List Value} (h : v.entries? = some vs) (hn : normalizeEntries fields = .ok fs)
    (hkeys : (failing vs).result = .ok keys) :
    (meetsFields v fields failing).result = .ok (!fields.isEmpty && keys.isEmpty) := by
  unfold meetsFields
  rw [h]
  simp only [Traced.result_bind, Traced.result_lift, hn, ok_bind]
  cases hf : fields.isEmpty <;> simp [hkeys]

theorem Settled.isSpec {spec : Value} (h : Settled spec) : ∃ isa b, spec = .fieldSpec isa (ofBool b) := by
  cases h with
  | typeName _ b => exact ⟨_, b, rfl⟩
  | instanceOf _ b => exact ⟨_, b, rfl⟩
  | unsatisfiable _ b => exact ⟨_, b, rfl⟩
  | nested _ _ b => exact ⟨_, b, rfl⟩

/-- A settled spec is normal already, so checking it starts at once. -/
theorem Settled.isFieldValid_result {spec : Value} (h : Settled spec) (v : Value) :
    (isFieldValid v spec).result = (fieldResult v spec).result := by
  obtain ⟨isa, b, rfl⟩ := h.isSpec
  rw [isFieldValid, toField, Traced.result_bind, Traced.result_lift, ok_bind]

/-- Settled fields are normal already. -/
theorem normalizeEntries_settled {fields : Entries} (h : ∀ f ∈ fields, Settled f.2) :
    normalizeEntries fields = .ok fields :=
  normalizeEntries_of_specs fun f hf => by
    obtain ⟨isa, b, he⟩ := (h f hf).isSpec
    exact ⟨isa, ofBool b, he⟩

/-- Nested fields pass if there are any and every one passes; the outcome of each field is given. -/
theorem meets_nested {v : Value} {vs fields : Entries} (hv : v.entries? = some vs)
    (hkeys : Entries.Keyed fields) (hspecs : ∀ f ∈ fields, Settled f.2)
    (hfield : ∀ f ∈ fields, (fieldResult (held vs f.1) f.2).result = .ok (ofBool (passes (held vs f.1) f.2))) :
    (meets v false (.nested fields)).result =
      .ok (!fields.isEmpty && fields.all fun f => passes (held vs f.1) f.2) := by
  have hvalue : ∀ f ∈ fields, valueAt vs f.1 = .ok (held vs f.1) := fun f hf =>
    valueAt_eq (hkeys.hashable f.1 (List.mem_map_of_mem hf))
  have hfailing := failingKeys_result hvalue hfield
  rw [meets]
  refine (meetsFields_some hv (normalizeEntries_settled hspecs) hfailing).trans ?_
  congr 2
  rw [List.isEmpty_map, Bool.eq_iff_iff, List.isEmpty_iff, List.filter_eq_nil_iff, List.all_eq_true]
  simp

/-- Checking fields gives the keys that fail with the values and the fields. -/
theorem checkFields_result {mode : Mode} {v : Value} {fields : Entries} {value : Value → Except Fault Value} :
    (checkFields mode v fields value).result = (do
      .ok ⟨← (failingKeys value fields).result, v, fields, false⟩) := by
  unfold checkFields
  simp only [Traced.result_bind, result_report, ok_bind, Traced.result_pure]

/-- Values that reach the fields have no structural outcome. -/
theorem checkFields_structural {mode : Mode} {v : Value} {fields : Entries} {value : Value → Except Fault Value}
    {o : Outcome} (h : (checkFields mode v fields value).result = .ok o) : o.structural = false := by
  rw [checkFields_result] at h
  obtain ⟨keys, -, h⟩ := bind_eq_ok.mp h
  rw [← Except.ok.inj h]

/-- **A measured value is checked against a settled spec without a fault.** -/
theorem Settled.result {spec : Value} (h : Settled spec) : ∀ {v : Value}, Measured v →
    (fieldResult v spec).result = .ok (ofBool (passes v spec)) := by
  -- it is enough that the constraint gives some boolean: `passes` is then the outcome
  suffices hb : ∀ v, Measured v → ∃ b, (fieldResult v spec).result = .ok (ofBool b) by
    intro v hv
    obtain ⟨b, hb⟩ := hb v hv
    rw [hb, passes_of_result hb]
  induction h with
  | @typeName name s hname optional =>
    intro v hv
    obtain ⟨b, hb⟩ := hv.isOfType name
    exact ⟨_, fieldResult_of_meets ((meets_typeName v name false).trans hb) optional⟩
  | instanceOf c optional => exact fun v _ => ⟨_, fieldResult_of_meets (meets_instanceOf v c false) optional⟩
  | unsatisfiable raw optional =>
    exact fun v _ => ⟨_, fieldResult_of_meets (meets_unsatisfiable v raw false) optional⟩
  | @nested fields hkeys hspecs optional ih =>
    intro v hv
    cases hvs : v.entries? with
    | none =>
      exact ⟨_, fieldResult_of_meets (meets_nested_none hvs fields) optional⟩
    | some vs =>
      refine ⟨_, fieldResult_of_meets (meets_nested hvs hkeys hspecs fun f hf => ?_) optional⟩
      obtain ⟨b, hb⟩ := ih f hf _ (hv.held hvs f.1)
      rw [hb, passes_of_result hb]

end ArgSchema
