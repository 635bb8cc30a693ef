/-
# Schemas built before they are used

A schema that was built validates like the value it was built from: `validate` and
`Schema.validate` choose the mode twice, by the shape of the value and by what the schema
keeps of it, and choose the same one (`validate_built`). The empty text is the exception,
a missing schema to the first and a type name that nothing has to the second.

A schema of a schema has its fields, but is named whatever the inner one is, so it is the
same schema just if the inner one is named (`build_build`). As the type of a field a schema
stands for its fields too, and is met by the mappings that are valid by name
(`isFieldValid_toValue`).

Key definitions: `Traced.errors`, `Traced.verdict`.
-/
import ArgSchema.Proofs.FailingPath
import ArgSchema.Proofs.Requests

namespace ArgSchema

open Value

/-! ### Outcomes with their records -/

namespace Traced

/-- Computations one after another write the same records however they are grouped. -/
instance : LawfulMonad Traced := LawfulMonad.mk' Traced
  (fun x => by
    obtain ⟨log, result⟩ := x
    cases result with
    | ok a => exact congrArg (Traced.mk · (.ok a)) (List.append_nil log)
    | error e => rfl)
  (fun a f => by
    show Traced.bind (Traced.pure a) f = f a
    rfl)
  (fun x f g => by
    obtain ⟨log, result⟩ := x
    cases result with
    | error e => rfl
    | ok a =>
      show Traced.bind (Traced.bind ⟨log, .ok a⟩ f) g = Traced.bind ⟨log, .ok a⟩ fun a => Traced.bind (f a) g
      unfold Traced.bind
      cases h : (f a).result with
      | ok b => simp [h]
      | error e => simp [h])

@[simp] theorem lift_ok {α : Type} (a : α) : Traced.lift (.ok a) = Pure.pure a := rfl

/-- The keys that a validation reports, unless it stops with a fault. -/
def errors (x : Traced Outcome) : Except Fault (List Value) := x.result.map Outcome.failedKeys

/-- Whether a validation ends in a valid outcome, with the records on the way. -/
def verdict (x : Traced Outcome) : Traced Value := (fun o => ofBool o.isValid) <$> x

end Traced

/-! ### Building -/

theorem build_eq_ok {raw : Value} {path : Option String} {S : Schema} : Schema.build raw path = .ok S ↔
    S.raw = raw ∧ S.path = path ∧ (if raw.text?.isSome then ofList [raw] else raw).toFields = .ok S.fields := by
  unfold Schema.build
  rw [bind_eq_ok]
  constructor
  · rintro ⟨fields, hfields, h⟩
    obtain rfl : Schema.mk raw fields path = S := by simpa using h
    exact ⟨rfl, rfl, hfields⟩
  · rintro ⟨rfl, rfl, hfields⟩
    exact ⟨S.fields, hfields, rfl⟩

theorem build_toValue (S : Schema) (id : Nat) (path : Option String) :
    Schema.build (S.toValue id) path = .ok ⟨S.toValue id, S.fields, path⟩ := rfl

theorem isNamedSchema_toValue (S : Schema) (id : Nat) : isNamedSchema (S.toValue id) = !S.isPositional := rfl

theorem isNamedSchema_of_ne {s : Value} (h : ∀ id raw fields, s ≠ .schema id raw fields) : isNamedSchema s = false := by
  cases s with
  | schema id raw fields => exact absurd rfl (h id raw fields)
  | _ => rfl

/-! ### The two modes -/

/-- Fields are all that a mode reads of a schema, apart from which of the modes it asks for. -/
theorem validateNamed_congr {s s' : Value} (h : s.toFields = s'.toFields) (v : Value) :
    validateNamed v s = validateNamed v s' := by
  unfold validateNamed
  rw [h]

theorem validatePositional_congr {s s' : Value} (h : s.toFields = s'.toFields)
    (hmode : isNamedSchema s = isNamedSchema s') (v : Value) : validatePositional v s = validatePositional v s' := by
  unfold validatePositional
  rw [h, hmode]

theorem Schema.validate_named {S : Schema} (h : S.isPositional = false) (v : Value) :
    S.validate v = validateNamed v (S.toValue 0) := by
  rw [Schema.validate, validateWith, isNamedSchema_toValue, h]
  rfl

theorem Schema.validate_positional {S : Schema} (h : S.isPositional = true) (v : Value) :
    S.validate v = validatePositional v (S.toValue 0) := by
  rw [Schema.validate, validateWith, isNamedSchema_toValue, h]
  rfl

theorem sequence?_of_entries {v : Value} {vs : Entries} (h : v.entries? = some vs) : v.sequence? = none := by
  cases hxs : v.sequence? with
  | none => rfl
  | some xs => simp [entries?_of_sequence hxs] at h

theorem Schema.validate_sequence {S : Schema} {v : Value} {xs : Sequence} (h : S.isPositional = true)
    (hxs : v.sequence? = some xs) : S.validate v =
      if S.fields.isEmpty then pure (.structuralError Outcome.missingSpec)
      else checkFields .positional v S.fields xs.get := by
  rw [Schema.validate_positional h]
  exact validatePositional_some hxs (by rw [isNamedSchema_toValue, h]; rfl) rfl

theorem Schema.validate_noSequence {S : Schema} {v : Value} (h : S.isPositional = true) (hxs : v.sequence? = none) :
    S.validate v = pure (.structuralError Outcome.missingPositional) := by
  rw [Schema.validate_positional h, validatePositional_none hxs]

/-! ### Freely and by the built schema -/

theorem validate_of_ne {s : Value} (h : ∀ id raw fields, s ≠ .schema id raw fields) (v : Value) :
    validate v s = match s.text? with
      | some "" => pure (.structuralError Outcome.missingSpec)
      | some _ => validatePositional v (.ofList [s])
      | none => if s.listItems?.isSome then validatePositional v s else validateNamed v s := by
  cases s with
  | schema id raw fields => exact absurd rfl (h id raw fields)
  | _ => rfl

theorem validate_of_nonempty {s : Value} {S : Schema} {path : Option String}
    (hs : ∀ id raw fields, s ≠ .schema id raw fields) (h : Schema.build s path = .ok S)
    (htext : s.text? ≠ some "") (v : Value) : validate v s = S.validate v := by
  obtain ⟨rfl, rfl, hfields⟩ := build_eq_ok.mp h
  rw [validate_of_ne hs]
  -- the empty text, another type name, a list or a tuple, anything else
  split
  · exact absurd ‹_› htext
  · rename_i name _ hname
    have hpos : S.isPositional = true := by simp [Schema.isPositional, isPositionalSpelling, hname]
    rw [hname] at hfields
    rw [Schema.validate_positional hpos]
    exact validatePositional_congr hfields (by rw [isNamedSchema_toValue, hpos]; rfl) v
  · rename_i hnone
    rw [hnone] at hfields
    split
    · rename_i hlist
      have hpos : S.isPositional = true := by simp [Schema.isPositional, isPositionalSpelling, hlist]
      rw [Schema.validate_positional hpos]
      exact validatePositional_congr hfields (by rw [isNamedSchema_toValue, hpos, isNamedSchema_of_ne hs]; rfl) v
    · rename_i hlist
      have hpos : S.isPositional = false := by
        simp only [Schema.isPositional, isPositionalSpelling, hnone, Option.isSome_none, Bool.or_false]
        exact Bool.eq_false_iff.mpr hlist
      rw [Schema.validate_named hpos]
      exact validateNamed_congr hfields v

/-- The empty text builds a schema with one field. -/
theorem fields_emptyName {s : Value} {S : Schema} {path : Option String} (h : Schema.build s path = .ok S)
    (htext : s.text? = some "") : S.isPositional = true ∧
      S.fields = [(ofInt 0, .fieldSpec (.typeName s) (ofBool false))] := by
  obtain ⟨rfl, rfl, hfields⟩ := build_eq_ok.mp h
  refine ⟨by simp [Schema.isPositional, isPositionalSpelling, htext], ?_⟩
  have hleaf : S.raw.toField = .ok (.fieldSpec (.typeName S.raw) (ofBool false)) := by
    cases hraw : S.raw with
    | atom a =>
      rw [hraw] at htext
      rw [toField, leafConstraint_name htext]
      all_goals simp
    | _ => simp [hraw, text?] at htext
  rw [htext, Option.isSome_some, if_pos rfl, ofList, toFields, if_pos (by decide), normalizeItems, normalizeItems,
    hleaf] at hfields
  exact (Except.ok.inj hfields).symm

/-- The empty text names no type: no value is of it, and null does not pass either. -/
theorem fieldResult_emptyName {s : Value} (h : s.text? = some "") (v : Value) :
    (fieldResult v (.fieldSpec (.typeName s) (ofBool false))).result = .ok (ofBool false) := by
  have hmeets : (meets v false (.typeName s)).result = .ok false := by
    rw [meets_typeName, isOfType, h]
    rfl
  rw [fieldResult_of_meets hmeets]
  split <;> rfl

theorem validate_build_emptyName {s : Value} {S : Schema} {path : Option String} {o : Outcome}
    (h : Schema.build s path = .ok S) (htext : s.text? = some "") {v : Value}
    (ho : (S.validate v).result = .ok o) :
    o = .structuralError Outcome.missingPositional ∨ o.structural = false ∧ o.failedKeys = [ofInt 0] := by
  obtain ⟨hpos, hfields⟩ := fields_emptyName h htext
  cases hxs : v.sequence? with
  | none =>
    rw [Schema.validate_noSequence hpos hxs] at ho
    exact .inl (Except.ok.inj ho).symm
  | some xs =>
    rw [Schema.validate_sequence hpos hxs, hfields, List.isEmpty_cons, if_neg (by decide), checkFields_result,
      failingKeys] at ho
    simp only [Traced.result_bind, Traced.result_lift] at ho
    cases hx : xs.get (ofInt 0) with
    | error e => simp [hx] at ho
    | ok x =>
      simp only [hx, ok_bind, fieldResult_emptyName htext, truth_ofBool, failingKeys, Traced.result_pure,
        Bool.false_eq_true, ↓reduceIte] at ho
      obtain rfl := Except.ok.inj ho
      exact .inr ⟨rfl, rfl⟩

/-- **A built schema validates like the value it was built from**, records included, unless
that is the empty text. The empty text is no schema, but it builds one; that one accepts no
values, and never for the reason that there is no schema. -/
theorem validate_built {s : Value} {S : Schema} {path : Option String}
    (hs : ∀ id raw fields, s ≠ .schema id raw fields) (h : Schema.build s path = .ok S) (v : Value) :
    (s.text? ≠ some "" → validate v s = S.validate v) ∧
    (s.text? = some "" → validate v s = pure (.structuralError Outcome.missingSpec) ∧
      (S.validate v).errors ≠ (validate v s).errors ∧
      ∀ o, (S.validate v).result = .ok o → o.isValid = false) := by
  refine ⟨fun htext => validate_of_nonempty hs h htext v, fun htext => ?_⟩
  have hfree : validate v s = pure (.structuralError Outcome.missingSpec) := by
    rw [validate_of_ne hs, htext]
    rfl
  refine ⟨hfree, ?_, fun o ho => ?_⟩
  · rw [hfree, Traced.errors, Traced.errors]
    cases hresult : (S.validate v).result with
    | error e => simp [Except.map]
    | ok o =>
      rcases validate_build_emptyName h htext hresult with rfl | ⟨-, hkeys⟩
      · simp [Except.map, Outcome.structuralError, ofText, Outcome.missingSpec, Outcome.missingPositional]
      · simp [Except.map, hkeys, Outcome.structuralError, ofText, ofInt]
  · rcases validate_build_emptyName h htext ho with rfl | ⟨-, hkeys⟩
    · rfl
    · rw [Outcome.isValid, hkeys]
      rfl

/-- A type name by itself. -/
theorem validate_built_string : ∃ S, Schema.build (ofText "string") none = .ok S ∧
    validate (ofList [ofText "x"]) (ofText "string") = S.validate (ofList [ofText "x"]) := by
  obtain ⟨S, hS⟩ : ∃ S, Schema.build (ofText "string") none = .ok S := ⟨_, rfl⟩
  exact ⟨S, hS, (validate_built (fun _ _ _ => by simp [ofText]) hS (ofList [ofText "x"])).1 (by decide)⟩

/-- The empty text: one answer speaks of the schema, the other one of the first value. -/
theorem validate_emptyName : ∃ S o, Schema.build (ofText "") none = .ok S ∧
    validate (ofList [ofText "x"]) (ofText "") = ⟨[], .ok (.structuralError Outcome.missingSpec)⟩ ∧
    S.validate (ofList [ofText "x"]) = ⟨[.failed .positional [ofInt 0]], .ok o⟩ ∧
    o.failedKeys = [ofInt 0] ∧ o.errorString = .ok (ofText "positional argument 0 is not a \"\"") :=
  ⟨_, _, rfl, rfl, rfl, rfl, rfl⟩

/-! ### Schemas of schemas -/

theorem positional_keys {s : Value} {S : Schema} {path : Option String} (h : Schema.build s path = .ok S)
    (hpos : S.isPositional = true) : ∀ k ∈ S.fields.map Prod.fst, ∃ n : Nat, k = ofInt n := by
  obtain ⟨rfl, rfl, hfields⟩ := build_eq_ok.mp h
  have hindexed : ∃ items, normalizeEntries (indexed 0 items) = .ok S.fields := by
    by_cases htext : S.raw.text?.isSome
    · refine ⟨[S.raw], ?_⟩
      rw [if_pos htext] at hfields
      rw [← normalizeItems_eq]
      exact hfields
    · rw [if_neg htext] at hfields
      have hlist : S.raw.listItems?.isSome := by simpa [Schema.isPositional, isPositionalSpelling, htext] using hpos
      cases hraw : S.raw with
      | collection kind id items =>
        rw [hraw] at hfields hlist
        have hkind : kind.isListOrTuple := by simpa [listItems?] using hlist
        rw [toFields, if_pos hkind, normalizeItems_eq] at hfields
        exact ⟨items, hfields⟩
      | _ => simp [hraw, listItems?] at hlist
  obtain ⟨items, hn⟩ := hindexed
  rw [keys_normalizeEntries hn]
  intro k hk
  obtain ⟨e, he, rfl⟩ := List.mem_map.mp hk
  obtain ⟨n, -, hn⟩ := key_indexed he
  exact ⟨n, hn⟩

/-- A check of fields under positions reports no message. -/
theorem checkFields_errors_ne {mode : Mode} {v : Value} {fields : Entries} {value : Value → Except Fault Value}
    (hkeys : ∀ k ∈ fields.map Prod.fst, ∃ n : Nat, k = ofInt n) (message : String) :
    (checkFields mode v fields value).errors ≠ .ok [ofText message] := by
  unfold Traced.errors
  rw [checkFields_result]
  cases hfailing : (failingKeys value fields).result with
  | error e => simp [Except.map]
  | ok keys =>
    intro h
    have hkeysEq : keys = [ofText message] := by simpa [Except.map] using h
    obtain ⟨n, hn⟩ := hkeys _ (failingKeys_mem hfailing (ofText message) (by simp [hkeysEq]))
    simp [ofText, ofInt] at hn

theorem structural_errors_ne {message message' : String} (h : message ≠ message') :
    Traced.errors (pure (.structuralError message)) ≠ Traced.errors (pure (.structuralError message')) := by
  simpa [Traced.errors, Except.map, Outcome.structuralError, ofText] using h

/-- By name a positional schema is never validated with the same keys: there is no value that
both modes take, and positions are no messages. -/
theorem errors_ne_of_positional {S : Schema} {path : Option String} {s : Value} (h : Schema.build s path = .ok S)
    (hpos : S.isPositional = true) (v : Value) :
    (validateNamed v (S.toValue 0)).errors ≠ (S.validate v).errors := by
  have hkeys := positional_keys h hpos
  have hto : (S.toValue 0).toFields = .ok S.fields := rfl
  cases hvs : v.entries? with
  | some vs =>
    rw [Schema.validate_noSequence hpos (sequence?_of_entries hvs), validateNamed_some hvs hto]
    split
    · exact structural_errors_ne (by decide)
    · exact checkFields_errors_ne hkeys _
  | none =>
    rw [validateNamed_none hvs]
    cases hxs : v.sequence? with
    | none =>
      rw [Schema.validate_noSequence hpos hxs]
      exact structural_errors_ne (by decide)
    | some xs =>
      rw [Schema.validate_sequence hpos hxs]
      split
      · exact structural_errors_ne (by decide)
      · exact (checkFields_errors_ne hkeys _).symm

theorem shown_eq_iff {S W : Schema} (hsize : W.size = S.size) : W.shown = S.shown ↔ W.isPositional = S.isPositional := by
  unfold Schema.shown schemaText
  unfold Schema.size at hsize
  rw [hsize]
  show _ ↔ W.raw.isPositionalSpelling = S.raw.isPositionalSpelling
  cases hW : W.raw.isPositionalSpelling <;> cases hS : S.raw.isPositionalSpelling <;> simp

/-- **A schema of a schema is the same schema just if that one is named.** It has the fields
and the size of the inner one and is named itself. If the inner one is positional, the two
are of different modes, and no values give the same keys. -/
theorem build_build {s : Value} {S : Schema} {path : Option String} (h : Schema.build s path = .ok S) (id : Nat)
    (path' : Option String) : ∃ W, Schema.build (S.toValue id) path' = .ok W ∧ W.fields = S.fields ∧
      W.size = S.size ∧ (W.isPositional = S.isPositional ↔ S.isPositional = false) ∧
      (W.shown = S.shown ↔ S.isPositional = false) ∧
      ∀ v, (S.isPositional = false → W.validate v = S.validate v) ∧
        (S.isPositional = true → (W.validate v).errors ≠ (S.validate v).errors) := by
  obtain ⟨W, hbuild, hraw, hfields⟩ : ∃ W, Schema.build (S.toValue id) path' = .ok W ∧ W.raw = S.toValue id ∧
      W.fields = S.fields := ⟨_, build_toValue S id path', rfl, rfl⟩
  have hsize : W.size = S.size := by rw [Schema.size, hfields, Schema.size]
  have hnamed : W.isPositional = false := by
    rw [Schema.isPositional, hraw]
    rfl
  have hmode : W.isPositional = S.isPositional ↔ S.isPositional = false := by
    rw [hnamed]
    exact eq_comm
  refine ⟨W, hbuild, hfields, hsize, hmode, (shown_eq_iff hsize).trans hmode, fun v => ?_⟩
  have hW : W.validate v = validateNamed v (S.toValue 0) := by
    have hto : (W.toValue 0).toFields = (S.toValue 0).toFields := congrArg Except.ok hfields
    rw [Schema.validate_named hnamed, validateNamed_congr hto]
  rw [hW]
  exact ⟨fun hS => (Schema.validate_named hS v).symm, fun hS => errors_ne_of_positional h hS v⟩

/-- A schema of a schema with one name. -/
theorem build_build_named : ∃ S W, Schema.build (ofEntries [(ofText "name", ofText "string")]) none = .ok S ∧
    Schema.build (S.toValue 0) none = .ok W ∧ W.isPositional = S.isPositional ∧
    W.validate (ofEntries [(ofText "name", ofInt 1)]) = S.validate (ofEntries [(ofText "name", ofInt 1)]) := by
  obtain ⟨S, hS, hnamed⟩ : ∃ S, Schema.build (ofEntries [(ofText "name", ofText "string")]) none = .ok S ∧
      S.isPositional = false := ⟨_, rfl, rfl⟩
  obtain ⟨W, hW, -, -, hmode, -, hvalidate⟩ := build_build hS 0 none
  exact ⟨S, W, hS, hW, hmode.mpr hnamed, (hvalidate _).1 hnamed⟩

/-- A schema of a list is positional, a schema of that schema is not, and asks for names. -/
theorem build_build_list : ∃ S W, Schema.build (ofList [ofText "string"]) none = .ok S ∧
    Schema.build (S.toValue 0) none = .ok W ∧ S.isPositional = true ∧ W.isPositional = false ∧ W.shown ≠ S.shown ∧
    (S.validate (ofList [ofText "x"])).errors = .ok [] ∧
    (W.validate (ofList [ofText "x"])).errors = .ok [ofText Outcome.missingNamed] := by
  refine ⟨_, _, rfl, rfl, rfl, rfl, fun he => ?_, rfl, rfl⟩
  have hmode := (shown_eq_iff (by rfl)).mp he
  cases hmode

/-! ### Schemas as types -/

/-- Nested fields are met by the mappings that are valid against them. -/
theorem meetsFields_eq_verdict {v s : Value} {fields fs : Entries} (hs : s.toFields = .ok fields)
    (hn : normalizeEntries fields = .ok fs) :
    ofBool <$> (meetsFields v fields fun vs => failingKeys (valueAt vs) fields) =
      (validateNamed v s).verdict := by
  unfold Traced.verdict meetsFields
  cases hvs : v.entries? with
  | none =>
    rw [validateNamed_none hvs]
    simp [Outcome.isValid, Outcome.structuralError]
  | some vs =>
    rw [validateNamed_some hvs hs, hn]
    by_cases hempty : fields.isEmpty
    · simp [hempty, Outcome.isValid, Outcome.structuralError]
    · simp [hempty, checkFields, Outcome.isValid]

theorem fieldResult_nested {v s : Value} {fields fs : Entries} (hv : v.isNull = false) (hs : s.toFields = .ok fields)
    (hn : normalizeEntries fields = .ok fs) (optional : Value) :
    fieldResult v (.fieldSpec (.nested fields) optional) = (validateNamed v s).verdict := by
  rw [fieldResult, unlessNull, hv, if_neg (by decide), meets, bind_pure_comp]
  exact meetsFields_eq_verdict hs hn

theorem toField_isa_schema (S : Schema) (id : Nat) :
    (ofEntries [(ofText "isa", S.toValue id)]).toField = .ok (.fieldSpec (.nested S.fields) (ofBool false)) := by
  rfl

/-- A valid outcome of validating by name is about a mapping. -/
theorem entries?_of_verdict {v s : Value} (h : (validateNamed v s).verdict.result = .ok (ofBool true)) :
    ∃ vs, v.entries? = some vs := by
  cases hvs : v.entries? with
  | some vs => exact ⟨vs, rfl⟩
  | none =>
    rw [validateNamed_none hvs] at h
    have hflags : ofBool false = ofBool true := Except.ok.inj h
    simp [ofBool] at hflags

/-- **As a type a schema is met by what is valid by name**, on its own and under "isa", with
the same records. That is what the schema itself accepts if it is named. If it is
positional, it takes none of those values for a sequence. -/
theorem isFieldValid_toValue {raw : Value} {path : Option String} {S : Schema} (hraw : Plain raw)
    (h : Schema.build raw path = .ok S) (id : Nat) {v : Value} (hv : v.isNull = false) :
    isFieldValid v (S.toValue id) = (validateNamed v (S.toValue id)).verdict ∧
    isFieldValid v (ofEntries [(ofText "isa", S.toValue id)]) = (validateNamed v (S.toValue id)).verdict ∧
    (S.isPositional = false → (validateNamed v (S.toValue id)).verdict = (S.validate v).verdict) ∧
    (S.isPositional = true → (validateNamed v (S.toValue id)).verdict.result = .ok (ofBool true) →
      S.validate v = pure (.structuralError Outcome.missingPositional)) := by
  obtain ⟨rfl, rfl, -⟩ := build_eq_ok.mp h
  have hplain : Plain (S.toValue id) := .schema hraw h
  have hfields : (S.toValue id).toFields = .ok S.fields := rfl
  have hn := normalizeEntries_settled (hplain.settled_fields hfields).2
  have hfield := fieldResult_nested hv hfields hn (ofBool false)
  refine ⟨hfield, ?_, fun hS => ?_, fun hS hvalid => ?_⟩
  · rw [isFieldValid, toField_isa_schema]
    exact hfield
  · have hto : (S.toValue id).toFields = (S.toValue 0).toFields := rfl
    rw [Schema.validate_named hS, validateNamed_congr hto]
  · obtain ⟨vs, hvs⟩ := entries?_of_verdict hvalid
    exact Schema.validate_noSequence hS (sequence?_of_entries hvs)

/-- A mapping against a schema with one name. -/
theorem isFieldValid_toValue_named : ∃ S, Schema.build (ofEntries [(ofText "name", ofText "string")]) none = .ok S ∧
    isFieldValid (ofEntries [(ofText "name", ofText "Ada")]) (S.toValue 0) =
      (S.validate (ofEntries [(ofText "name", ofText "Ada")])).verdict := by
  obtain ⟨S, hS, hnamed⟩ : ∃ S, Schema.build (ofEntries [(ofText "name", ofText "string")]) none = .ok S ∧
      S.isPositional = false := ⟨_, rfl, rfl⟩
  have hplain : Plain (ofEntries [(ofText "name", ofText "string")]) :=
    plain_named ["name"] rfl (by decide) (List.forall_mem_singleton.mpr (.atom _))
  have hnull : (ofEntries [(ofText "name", ofText "Ada")]).isNull = false := rfl
  obtain ⟨hfield, -, hmode, -⟩ := isFieldValid_toValue hplain hS 0 hnull
  exact ⟨S, hS, hfield.trans (hmode hnamed)⟩

/-- A positional schema accepts a list that it does not accept as a type, and as a type it is
met by a mapping of positions. -/
theorem isFieldValid_positional : ∃ S, Schema.build (ofList [ofText "string"]) none = .ok S ∧
    (S.validate (ofList [ofText "x"])).verdict.result = .ok (ofBool true) ∧
    (isFieldValid (ofList [ofText "x"]) (S.toValue 0)).result = .ok (ofBool false) ∧
    (S.validate (ofEntries [(ofInt 0, ofText "x")])).verdict.result = .ok (ofBool false) ∧
    (isFieldValid (ofEntries [(ofInt 0, ofText "x")]) (S.toValue 0)).result = .ok (ofBool true) :=
  ⟨_, rfl, rfl, rfl, rfl, rfl⟩

end ArgSchema
