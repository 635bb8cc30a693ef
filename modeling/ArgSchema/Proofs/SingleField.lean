/-
# A single field in every way

One value can be checked against one entry in five ways: by itself, against the normal form of the
entry, by name under any key, freely, and by position in a list of one. Each way normalizes at a
point of its own, and all give one verdict, or one fault (`allVerdicts`).

There is a verdict on every measured value against an entry that was written as plain data, or made
ready by hand, or both mixed (`Written`). Apart from null, which is met by what is optional, the flag
of the entry does not enter it; and under a mapping as the type it is the verdict on validating the
value by name against the mapping (`singleField_agree`).

Key definitions: `Value.AllVerdicts`, `Written`.
-/
import ArgSchema.Proofs.Lookups

namespace ArgSchema

open Value

/-- Whether the outcome of a validation is valid. -/
def Traced.isValid (x : Traced Outcome) : Except Fault Bool := x.result.map Outcome.isValid

/-- All verdicts on a value against an entry are the same. -/
structure Value.AllVerdicts (v x : Value) (r : Except Fault Bool) : Prop where
  single : accepted v x = r
  normalized : ∀ spec, x.toField = .ok spec → accepted v spec = r
  named : ∀ key, (∃ k, key.key = .ok k) → (validateNamed (ofEntries [(key, v)]) (ofEntries [(key, x)])).isValid = r
  freely : ∀ key, (∃ k, key.key = .ok k) → (validate (ofEntries [(key, v)]) (ofEntries [(key, x)])).isValid = r
  positional : (validatePositional (ofList [v]) (ofList [x])).isValid = r

/-- An entry as it may be written: plain data, a spec or a constraint that is ready, or a mapping
of such entries. -/
inductive Written : Value → Prop where
  | plain {x : Value} (h : Plain x) : Written x
  | spec {x : Value} (h : Settled x) : Written x
  | constraint {c : Value} {optional : Bool} (h : Settled (.fieldSpec c (ofBool optional))) : Written c
  | mapping {kind : MappingKind} {id : Nat} {es : Entries} (hkeys : Entries.Keyed es)
      (hentries : ∀ e ∈ es, Written e.2) : Written (.mapping kind id es)

/-! ### One field -/

/-- What a check of one field comes to. -/
theorem isValid_checkFields {mode : Mode} {v w key spec : Value} {value : Value → Except Fault Value}
    (hw : value key = .ok w) : (checkFields mode v [(key, spec)] value).isValid = (do
      (← (fieldResult w spec).result).truth) := by
  rw [Traced.isValid, checkFields_result, failingKeys]
  simp only [Traced.result_bind, Traced.result_lift, hw, ok_bind]
  cases (fieldResult w spec).result with
  | error fault => rfl
  | ok outcome =>
    simp only [ok_bind]
    cases outcome.truth with
    | error fault => rfl
    | ok ok => cases ok <;> rfl

/-- A mapping holds the value of its one entry. -/
theorem valueAt_single {key v : Value} (hkey : ∃ k, key.key = .ok k) : valueAt [(key, v)] key = .ok v := by
  obtain ⟨k, hk⟩ := hkey
  have hfound : key.hasKey k = true := by
    rw [hasKey_of_key hk]
    exact beq_self_eq_true k
  rw [valueAt, lookup?, hk, ok_bind, ok_bind, Entries.find?, if_pos hfound]
  rfl

theorem accepted_of_toField {x spec : Value} (h : x.toField = .ok spec) (v : Value) :
    accepted v x = (do (← (fieldResult v spec).result).truth) := by
  rw [accepted, isFieldValid, h]
  rfl

theorem accepted_of_error {x : Value} {fault : Fault} (h : x.toField = .error fault) (v : Value) :
    accepted v x = .error fault := by
  rw [accepted, isFieldValid, h]
  rfl

/-- A normal form is checked as it is. -/
theorem accepted_normalized {x spec : Value} (h : x.toField = .ok spec) (v : Value) :
    accepted v spec = accepted v x := by
  obtain ⟨isa, optional, rfl⟩ := toField_fieldSpec h
  rw [accepted_of_toField h, accepted_of_toField (by rw [toField])]

theorem isValid_validateNamed_single {key : Value} (hkey : ∃ k, key.key = .ok k) (v x : Value) :
    (validateNamed (ofEntries [(key, v)]) (ofEntries [(key, x)])).isValid = accepted v x := by
  have hentries : (ofEntries [(key, v)]).entries? = some [(key, v)] := rfl
  cases hx : x.toField with
  | error fault =>
    rw [accepted_of_error hx, validateNamed, hentries]
    have hn : (ofEntries [(key, x)]).toFields = .error fault := by
      rw [ofEntries, toFields, normalizeEntries, hx, error_bind]
    simp only [hn]
    rfl
  | ok spec =>
    have hn : (ofEntries [(key, x)]).toFields = .ok [(key, spec)] := by
      rw [ofEntries, toFields, normalizeEntries, hx, ok_bind, normalizeEntries, ok_bind]
    rw [validateNamed_some hentries hn, if_neg (by simp), isValid_checkFields (valueAt_single hkey),
      accepted_of_toField hx]

theorem isValid_validatePositional_single (v x : Value) :
    (validatePositional (ofList [v]) (ofList [x])).isValid = accepted v x := by
  have hitems : (ofList [v]).sequence? = some (.items [v]) := rfl
  have hfirst : (Sequence.items [v]).get (ofInt 0) = .ok v := rfl
  obtain ⟨hlist, hmode⟩ := toFields_listItems (rfl : (ofList [x]).listItems? = some [x])
  cases hx : x.toField with
  | error fault =>
    rw [accepted_of_error hx, validatePositional, hitems]
    have hn : (ofList [x]).toFields = .error fault := by
      rw [hlist, indexed, normalizeEntries, hx, error_bind]
    simp only [hmode, hn]
    rfl
  | ok spec =>
    have hn : (ofList [x]).toFields = .ok [(ofInt 0, spec)] := by
      rw [hlist, indexed, indexed, normalizeEntries, hx, ok_bind, normalizeEntries, ok_bind]
      rfl
    rw [validatePositional_some hitems hmode hn, if_neg (by simp), isValid_checkFields hfirst, accepted_of_toField hx]

/-- **One value against one entry has one verdict**, or one fault, in every way to check it. -/
theorem allVerdicts (v x : Value) : v.AllVerdicts x (accepted v x) where
  single := rfl
  normalized := fun _ h => accepted_normalized h v
  named := fun _ hkey => isValid_validateNamed_single hkey v x
  freely := fun key hkey => by
    have hfreely : validate (ofEntries [(key, v)]) (ofEntries [(key, x)]) =
        validateNamed (ofEntries [(key, v)]) (ofEntries [(key, x)]) := rfl
    rw [hfreely]
    exact isValid_validateNamed_single hkey v x
  positional := isValid_validatePositional_single v x

theorem Value.AllVerdicts.of_single {v x : Value} {r : Except Fault Bool} (h : accepted v x = r) : v.AllVerdicts x r :=
  h ▸ allVerdicts v x

/-! ### Entries as they are written -/

/-- A ready constraint stands for itself. -/
theorem Settled.leafConstraint {c optional : Value} (h : Settled (.fieldSpec c optional)) :
    c.nestedEntries? = none ∧ c.leafConstraint = c := by
  cases h <;> exact ⟨rfl, rfl⟩

/-- **What is written stands for settled specs**, as an entry and as a type. -/
theorem Written.settled {x : Value} (h : Written x) : (∀ spec, x.toField = .ok spec → Settled spec) ∧
    ∀ c, x.toConstraint = .ok c → ∀ b, Settled (.fieldSpec c (ofBool b)) := by
  induction h with
  | plain h => exact ⟨fun _ => h.settled_field, h.settled⟩
  | @spec x h =>
    obtain ⟨isa, optional, rfl⟩ := h.isSpec
    refine ⟨fun spec hspec => ?_, fun c hc b => ?_⟩
    · obtain rfl : Value.fieldSpec isa (ofBool optional) = spec := by simpa [toField] using hspec
      exact h
    · -- a spec is no type
      obtain rfl : Value.unsatisfiable (.fieldSpec isa (ofBool optional)) = c := by
        simpa [toConstraint, Value.leafConstraint] using hc
      exact .unsatisfiable _ b
  | @constraint c optional h =>
    obtain ⟨hleaf, hself⟩ := h.leafConstraint
    have hconstraint : c.toConstraint = .ok c := by rw [toConstraint_leaf hleaf, hself]
    refine ⟨fun spec hspec => ?_, fun c' hc b => ?_⟩
    · have hfield : c.toField = .ok (.fieldSpec c (ofBool false)) := by cases h <;> rfl
      obtain rfl : Value.fieldSpec c (ofBool false) = spec := Except.ok.inj (hfield.symm.trans hspec)
      exact h.reflag false
    · obtain rfl : c = c' := Except.ok.inj (hconstraint.symm.trans hc)
      exact h.reflag b
  | @mapping kind id es hkeys hentries ih =>
    have htype : ∀ c, (Value.mapping kind id es).toConstraint = .ok c → ∀ b, Settled (.fieldSpec c (ofBool b)) := by
      intro c hc b
      rw [toConstraint] at hc
      obtain ⟨fields, hn, hc⟩ := bind_eq_ok.mp hc
      obtain rfl : Value.nested fields = c := Except.ok.inj hc
      refine .nested (hkeys.normalize hn) (fun f hf => ?_) b
      obtain ⟨e, he, -, hspec⟩ := mem_normalizeEntries hn f hf
      exact (ih e he).1 f.2 hspec
    refine ⟨fun spec hspec => ?_, htype⟩
    obtain ⟨c, b, hc, -, rfl⟩ := (toField_eq_ok (by simp)).mp hspec
    rcases askedType_mapping kind id es with ⟨e, he, -, hasked⟩ | hasked
    · exact (ih e he).2 c (hasked ▸ hc) b
    · exact htype c (hasked ▸ hc) b

/-- There is a verdict on a measured value against what stands for a settled spec. -/
theorem accepted_settled {v x spec : Value} (hv : Measured v) (hx : x.toField = .ok spec) (hs : Settled spec) :
    accepted v x = .ok (passes v spec) := by
  rw [accepted_of_toField hx, hs.result hv, ok_bind, truth_ofBool]

/-! ### The flag and the type -/

/-- Apart from null no value is checked against the flag. -/
theorem accepted_reflagged {v x x' c flag flag' : Value} (hv : v ≠ null) (hx : x.toField = .ok (.fieldSpec c flag))
    (hx' : x'.toField = .ok (.fieldSpec c flag')) : accepted v x' = accepted v x := by
  have hnull : v.isNull = false := Bool.eq_false_iff.mpr (mt isNull_iff.mp hv)
  rw [accepted_of_toField hx, accepted_of_toField hx', fieldResult, fieldResult, unlessNull, unlessNull, hnull,
    if_neg Bool.false_ne_true, if_neg Bool.false_ne_true]

theorem toField_isa {m : Value} {fields : Entries} (hm : m.toConstraint = .ok (.nested fields)) :
    (ofEntries [(ofText "isa", m)]).toField = .ok (.fieldSpec (.nested fields) (ofBool false)) ∧
      ∀ flag b, flag.truth = .ok b → (ofEntries [(ofText "isa", m), (ofText "optional", flag)]).toField =
        .ok (.fieldSpec (.nested fields) (ofBool b)) := by
  refine ⟨?_, fun flag b hb => ?_⟩
  · refine (toField_eq_ok (by simp [ofEntries])).mpr ⟨_, false, hm, ?_, rfl⟩
    rfl
  · refine (toField_eq_ok (by simp [ofEntries])).mpr ⟨_, b, hm, ?_, rfl⟩
    exact hb

/-- A mapping as the type asks for what is valid by name against it. -/
theorem accepted_isa {v m : Value} {fields : Entries} (hv : v ≠ null) (hn : m.toFields = .ok fields)
    (hidem : normalizeEntries fields = .ok fields) (hm : m.toConstraint = .ok (.nested fields)) :
    accepted v (ofEntries [(ofText "isa", m)]) = (validateNamed v m).isValid := by
  have hnull : v.isNull = false := Bool.eq_false_iff.mpr (mt isNull_iff.mp hv)
  rw [accepted_of_toField (toField_isa hm).1, fieldResult_nested hnull hn hidem]
  show ((validateNamed v m).verdict.result >>= Value.truth) = _
  rw [Traced.isValid, Traced.verdict, map_eq_pure_bind, Traced.result_bind]
  cases (validateNamed v m).result with
  | error fault => rfl
  | ok o => exact truth_ofBool o.isValid

/-- A constraint of nested fields that is made by hand is met as what it normalizes to. -/
theorem accepted_nested {v : Value} {es fields : Entries} (hn : normalizeEntries es = .ok fields) (optional : Value) :
    accepted v (.fieldSpec (.nested es) optional) = accepted v (.fieldSpec (.nested fields) optional) := by
  have hmeets : meets v false (.nested es) = meets v false (.nested fields) := by
    have htype : (Value.mapping .dict 0 es).toConstraint = .ok (.nested fields) := by rw [toConstraint, hn, ok_bind]
    have h := metAsWritten (.mapping .dict 0 es) (.nested fields) htype v
    have hmapping : meets v true (.mapping .dict 0 es) = meets v false (.nested es) := by
      rw [meets, meets, if_pos rfl]
    exact hmapping.symm.trans h
  rw [accepted_of_toField (by rw [toField]), accepted_of_toField (by rw [toField]), fieldResult, fieldResult, hmeets]

/-- **A single field is decided alike in every way.** On every measured value there is one verdict
against what is written as an entry, as soon as that has a normal form: checked by itself or in
normal form, by name, freely and by position. On any value but null the flag makes no difference,
and with a mapping under "isa", or a constraint made by hand of its entries, the verdict is the one
on the value by name against that mapping. -/
theorem singleField_agree {v : Value} (hv : Measured v) :
    (∀ x spec, Written x → x.toField = .ok spec → ∃ b, v.AllVerdicts x (.ok b)) ∧
    (v ≠ null → ∀ x x' c flag flag' r, x.toField = .ok (.fieldSpec c flag) → x'.toField = .ok (.fieldSpec c flag') →
      v.AllVerdicts x r → v.AllVerdicts x' r) ∧
    (v ≠ null → ∀ kind id es fields, Written (.mapping kind id es) → normalizeEntries es = .ok fields →
      ∃ b, (validateNamed v (.mapping kind id es)).isValid = .ok b ∧
        v.AllVerdicts (ofEntries [(ofText "isa", .mapping kind id es)]) (.ok b) ∧
        (∀ flag c, flag.truth = .ok c →
          v.AllVerdicts (ofEntries [(ofText "isa", .mapping kind id es), (ofText "optional", flag)]) (.ok b)) ∧
        ∀ flag, v.AllVerdicts (.fieldSpec (.nested es) flag) (.ok b)) := by
  refine ⟨fun x spec hx hspec => ?_, fun hnull x x' c flag flag' r hx hx' h => ?_,
    fun hnull kind id es fields hm hn => ?_⟩
  · exact ⟨_, .of_single (accepted_settled hv hspec (hx.settled.1 spec hspec))⟩
  · exact .of_single ((accepted_reflagged hnull hx hx').trans h.single)
  · have htype : (Value.mapping kind id es).toConstraint = .ok (.nested fields) := by rw [toConstraint, hn, ok_bind]
    obtain ⟨hfield, hflagged⟩ := toField_isa htype
    have hsettled : Settled (.fieldSpec (.nested fields) (ofBool false)) := hm.settled.2 _ htype false
    have hverdict := accepted_settled hv hfield hsettled
    have hnamed : accepted v (ofEntries [(ofText "isa", .mapping kind id es)]) =
        (validateNamed v (.mapping kind id es)).isValid := accepted_isa hnull hn (normalizeEntries_idem hn) htype
    refine ⟨_, hnamed.symm.trans hverdict, .of_single hverdict, fun flag c hflag => ?_, fun flag => ?_⟩
    · exact .of_single ((accepted_reflagged hnull hfield (hflagged flag c hflag)).trans hverdict)
    · have hready : (Value.fieldSpec (.nested fields) flag).toField = .ok (.fieldSpec (.nested fields) flag) := by
        rw [toField]
      have hsame := accepted_nested (v := v) hn flag
      exact .of_single (hsame.trans ((accepted_reflagged hnull hfield hready).trans hverdict))

/-- A mapping with a key "isa", against a mapping that declares that key: under "isa" it declares the
name, and as the entry itself it asks for a text. -/
theorem singleField_agree_isa :
    let v := ofEntries [(ofText "isa", ofText "a")]
    let m := ofEntries [(ofText "isa", ofText "string")]
    Measured v ∧ v.AllVerdicts m (.ok false) ∧ (validateNamed v m).isValid = .ok true ∧
      v.AllVerdicts (ofEntries [(ofText "isa", m)]) (.ok true) ∧
      v.AllVerdicts (ofEntries [(ofText "isa", m), (ofText "optional", ofBool true)]) (.ok true) := by
  intro v m
  have hv : Measured v := measured_named ["isa"] rfl (List.forall_mem_singleton.mpr (measured_atom ⟨_, rfl⟩))
  have hm : Written m := .plain (plain_named ["isa"] rfl (by decide) (List.forall_mem_singleton.mpr (.atom _)))
  have hnull : v ≠ null := by simp [v, ofEntries, null]
  obtain ⟨hwritten, hreflagged, hmapping⟩ := singleField_agree hv
  obtain ⟨b, hshort⟩ := hwritten m _ hm rfl
  obtain ⟨b', hnamed, hisa, -, -⟩ := hmapping hnull .dict 0 [(ofText "isa", ofText "string")] _ hm rfl
  obtain rfl : false = b := Except.ok.inj hshort.single
  obtain rfl : true = b' := Except.ok.inj hnamed
  exact ⟨hv, hshort, hnamed, hisa, hreflagged hnull _ _ _ _ _ _ rfl rfl hisa⟩

end ArgSchema
