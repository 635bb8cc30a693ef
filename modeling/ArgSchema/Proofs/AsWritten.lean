/-
# Specs are checked as they are written

A check does not normalize first: it reads shorthand, specs in full and ready-made specs where
they stand. The outcome and the records are those of the normal form (`fieldResult_toField`),
so the keys that fail are the same whether entries are normalized or not
(`failingKeys_normalizeEntries`), and looking at one field by itself starts no other check than
looking at it among fields does (`isFieldValid_eq_fieldResult`).
-/
import ArgSchema.Proofs.BuiltSchemas

namespace ArgSchema

open Value

/-- Nested fields are met alike by what they are written as and by their normal form, if that is
so for the keys that fail. -/
theorem meetsFields_congr {v : Value} {es fields : Entries} {failing failing' : Entries → Traced (List Value)}
    (hn : normalizeEntries es = .ok fields) (hfailing : failing = failing') :
    meetsFields v es failing = meetsFields v fields failing' := by
  have hempty : es.isEmpty = fields.isEmpty := by
    have hnil := normalizeEntries_eq_nil hn
    rw [Bool.eq_iff_iff, List.isEmpty_iff, List.isEmpty_iff]
    exact hnil.symm
  unfold meetsFields
  rw [hn, normalizeEntries_idem hn, hempty, hfailing]

/-- What stands under "isa" is met by itself. -/
theorem meetsIsa_eq (v : Value) : ∀ es : Entries, meetsIsa v es = (Entries.field? "isa" es).map (meets v true)
  | [] => by simp [meetsIsa, Entries.field?, Entries.find?]
  | (k, t) :: rest => by
    have ih := meetsIsa_eq v rest
    unfold Entries.field? at ih ⊢
    unfold meetsIsa Entries.find?
    split
    · rfl
    · exact ih

/-- A type is met as its constraint is. -/
def MetAsWritten (t : Value) : Prop :=
  ∀ c, t.toConstraint = .ok c → ∀ v, meets v true t = meets v false c

theorem metAsWritten_leaf {t : Value} (h : t.nestedEntries? = none) : MetAsWritten t := by
  intro c hc v
  rw [toConstraint_leaf h] at hc
  obtain rfl : t.leafConstraint = c := by simpa using hc
  cases t with
  | mapping => simp [nestedEntries?] at h
  | schema => simp [nestedEntries?] at h
  | atom a =>
    cases a with
    | text kind s => cases kind <;> simp [meets, meetsLeaf, leafConstraint]
    | _ => simp [meets, meetsLeaf, leafConstraint]
  | _ => simp [meets, meetsLeaf, leafConstraint]

/-- An entry is checked as its spec is, if the type that it asks for is met as its constraint is. -/
theorem fieldResult_of_type {x spec : Value} (h : x.toField = .ok spec) (ht : MetAsWritten x.askedType) (v : Value) :
    fieldResult v x = fieldResult v spec := by
  by_cases hready : ∃ isa optional, x = .fieldSpec isa optional
  · obtain ⟨isa, optional, rfl⟩ := hready
    obtain rfl : Value.fieldSpec isa optional = spec := by simpa [toField] using h
    rfl
  · have hne : ∀ isa optional, x ≠ .fieldSpec isa optional := fun isa optional he => hready ⟨isa, optional, he⟩
    obtain ⟨c, b, hc, hb, rfl⟩ := (toField_eq_ok hne).mp h
    have hmeets := ht c hc v
    rw [fieldResult.eq_def v (.fieldSpec c (ofBool b))]
    simp only
    rw [← hmeets]
    cases x with
    | mapping kind id es =>
      cases hisa : Entries.field? "isa" es with
      | some t =>
        have hasked : (Value.mapping kind id es).askedType = t := by simp [askedType, hisa]
        have hflag : (optionalFlag es).truth = .ok b := by simpa [flag, hisa] using hb
        rw [fieldResult, meetsIsa_eq, hisa, hasked]
        simp only [Option.map_some, hflag]
        rfl
      | none =>
        have hasked : (Value.mapping kind id es).askedType = .mapping kind id es := by simp [askedType, hisa]
        obtain rfl : b = false := by simpa [flag, hisa] using hb.symm
        rw [fieldResult, meetsIsa_eq, hisa, hasked, meets]
        rfl
    | fieldSpec isa optional => exact absurd rfl (hne isa optional)
    | _ =>
      obtain rfl : b = false := by simpa [flag] using hb.symm
      rfl

/-- Fields fail alike as they are written and in normal form, records included. -/
theorem failingKeys_of_types (value : Value → Except Fault Value) : ∀ {es fields : Entries},
    normalizeEntries es = .ok fields → (∀ e ∈ es, MetAsWritten e.2.askedType) →
    failingKeys value es = failingKeys value fields
  | [], fields, hn, _ => by
    obtain rfl : [] = fields := by simpa [normalizeEntries] using hn
    rfl
  | (k, x) :: rest, fields, hn, ht => by
    rw [normalizeEntries] at hn
    obtain ⟨spec, hspec, hn⟩ := bind_eq_ok.mp hn
    obtain ⟨others, hothers, hn⟩ := bind_eq_ok.mp hn
    obtain rfl : (k, spec) :: others = fields := Except.ok.inj hn
    have hfirst := fieldResult_of_type hspec (ht (k, x) List.mem_cons_self)
    have hrest := failingKeys_of_types value hothers fun e he => ht e (List.mem_cons_of_mem _ he)
    rw [failingKeys, failingKeys, hrest]
    simp only [hfirst]

/-- **A type is met as its constraint is**, at every depth. -/
theorem metAsWritten (t : Value) : MetAsWritten t := by
  refine type_induction (P := MetAsWritten) (fun t h => metAsWritten_leaf h) (fun id raw fields => ?_)
    (fun kind id es ih => ?_) t
  · intro c hc v
    obtain rfl : Value.nested fields = c := by simpa [toConstraint] using hc
    rw [meets, meets, if_pos rfl]
  · intro c hc v
    rw [toConstraint] at hc
    obtain ⟨fields, hn, hc⟩ := bind_eq_ok.mp hc
    obtain rfl : Value.nested fields = c := Except.ok.inj hc
    have hfailing : (fun vs => failingKeys (valueAt vs) es) = fun vs => failingKeys (valueAt vs) fields := by
      funext vs
      exact failingKeys_of_types (valueAt vs) hn ih
    rw [meets, meets, if_pos rfl]
    exact meetsFields_congr hn hfailing

/-- **An entry is checked as its spec is**: same outcome, same records, same fault. -/
theorem fieldResult_toField {x spec : Value} (h : x.toField = .ok spec) (v : Value) :
    fieldResult v x = fieldResult v spec :=
  fieldResult_of_type h (metAsWritten x.askedType) v

/-- **Entries fail as their fields do.** -/
theorem failingKeys_normalizeEntries {es fields : Entries} (hn : normalizeEntries es = .ok fields)
    (value : Value → Except Fault Value) : failingKeys value es = failingKeys value fields :=
  failingKeys_of_types value hn fun e _ => metAsWritten e.2.askedType

/-- A single check of an entry that has a normal form is the check of it among other entries. -/
theorem isFieldValid_eq_fieldResult {x spec : Value} (h : x.toField = .ok spec) (v : Value) :
    isFieldValid v x = fieldResult v x := by
  rw [fieldResult_toField h v, isFieldValid, h]
  rfl

end ArgSchema
