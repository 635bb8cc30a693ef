/-
# Requests always return

A request ends in a structural outcome, whose only key is its message, or in a check of
the fields that its schema stands for (`Request.run_ends`). The fields of a plain schema
are settled, so that checking measured values against them meets no fault, and neither
does anything that is asked of the outcome later (`Request.returns`). One thing is left
that can fail: all numbers of a range at once may be more than a list has room for.

Key definitions: `Request.values`, `Request.schemas`, `Request.schema`, `Outcome.messages`,
`Outcome.Checks`.
-/
import ArgSchema.Proofs.Messages

namespace ArgSchema

open Value

namespace Request

/-- The values of a request. -/
def values : Request → Value
  | .freely v _ | .named v _ | .namedStrictly v _ | .namedObject v _ | .positional v _
  | .positionalStrictly v _ | .bySchema _ v => v

/-- The schema of a request, or the arguments that it is spelled by. -/
def schemas : Request → List Value
  | .positional _ args => args
  | .freely _ s | .named _ s | .namedStrictly _ s | .namedObject _ s | .positionalStrictly _ s
  | .bySchema s _ => [s]

/-- The one schema that a request stands for: a bare type name is a list of one. -/
def schema : Request → Value
  | .freely _ s => if s.text?.isSome then .ofList [s] else s
  | .positional _ args => spreadSchema args
  | .named _ s | .namedStrictly _ s | .namedObject _ s | .positionalStrictly _ s | .bySchema s _ => s

/-- The fields that a request checks; some requests normalize twice. -/
def fields : Request → Except Fault Entries
  | .named _ s | .namedObject _ s => do normalizeEntries (← s.toFields)
  | r => r.schema.toFields

end Request

/-! ### Outcomes of requests -/

/-- A structural outcome has one of three messages. -/
def Outcome.messages : List String := [missingSpec, missingNamed, missingPositional]

/-- An outcome of checking the values against the fields. -/
structure Outcome.Checks (o : Outcome) (values : Value) (fields : Except Fault Entries) : Prop where
  structural : o.structural = false
  values : o.values = values
  fields : fields = .ok o.fields
  failing : (failingKeys o.get o.fields).result = .ok o.failedKeys

theorem checks_of_checkFields {mode : Mode} {v : Value} {fields : Entries} {value : Value → Except Fault Value}
    {o : Outcome} (hget : ∀ keys, (Outcome.mk keys v fields false).get = value)
    (h : (checkFields mode v fields value).result = .ok o) : o.Checks v (.ok fields) := by
  rw [checkFields_result, bind_eq_ok] at h
  obtain ⟨keys, hkeys, h⟩ := h
  obtain rfl : Outcome.mk keys v fields false = o := by simpa using h
  exact ⟨rfl, rfl, rfl, by rw [hget]; exact hkeys⟩

theorem validateNamed_none {v : Value} (h : v.entries? = none) (s : Value) :
    validateNamed v s = pure (.structuralError Outcome.missingNamed) := by
  rw [validateNamed, h]

theorem validateNamed_some {v s : Value} {vs fields : Entries} (h : v.entries? = some vs)
    (hn : s.toFields = .ok fields) : validateNamed v s =
      if fields.isEmpty then pure (.structuralError Outcome.missingSpec)
      else checkFields .named v fields (valueAt vs) := by
  rw [validateNamed, h, hn]
  rfl

theorem validatePositional_none {v : Value} (h : v.sequence? = none) (s : Value) :
    validatePositional v s = pure (.structuralError Outcome.missingPositional) := by
  rw [validatePositional, h]

theorem validatePositional_some {v s : Value} {xs : Sequence} {fields : Entries} (h : v.sequence? = some xs)
    (hmode : isNamedSchema s = false) (hn : s.toFields = .ok fields) : validatePositional v s =
      if fields.isEmpty then pure (.structuralError Outcome.missingSpec)
      else checkFields .positional v fields xs.get := by
  rw [validatePositional, h, hmode, hn]
  rfl

theorem entries?_of_sequence {v : Value} {xs : Sequence} (h : v.sequence? = some xs) : v.entries? = none := by
  cases v with
  | mapping => simp [sequence?] at h
  | _ => rfl

/-- What validating by name can come to: a message, or a check of the fields. -/
theorem validateNamed_ends {v s : Value} {o : Outcome} (h : (validateNamed v s).result = .ok o) :
    (∃ message ∈ Outcome.messages, o = .structuralError message) ∨
      ∃ vs, v.entries? = some vs ∧ validateNamed v s = checkFields .named v o.fields (valueAt vs) ∧
        o.Checks v s.toFields := by
  cases hvs : v.entries? with
  | none =>
    rw [validateNamed_none hvs] at h
    exact .inl ⟨Outcome.missingNamed, by decide, (Except.ok.inj h).symm⟩
  | some vs =>
    cases hn : s.toFields with
    | error fault => simp [validateNamed, hvs, hn] at h
    | ok fields =>
      have hrun := validateNamed_some hvs hn
      by_cases hempty : fields.isEmpty
      · rw [hrun, if_pos hempty] at h
        exact .inl ⟨Outcome.missingSpec, by decide, (Except.ok.inj h).symm⟩
      · rw [if_neg hempty] at hrun
        rw [hrun] at h
        have hc : o.Checks v (.ok fields) := by
          refine checks_of_checkFields (fun keys => ?_) h
          funext key
          rw [Outcome.get, hvs]
        have hfields : fields = o.fields := Except.ok.inj hc.fields
        exact .inr ⟨vs, rfl, hfields ▸ hrun, hc⟩

/-- What validating by position can come to. -/
theorem validatePositional_ends {v s : Value} {o : Outcome} (h : (validatePositional v s).result = .ok o) :
    (∃ message ∈ Outcome.messages, o = .structuralError message) ∨
      ∃ xs, v.sequence? = some xs ∧ validatePositional v s = checkFields .positional v o.fields xs.get ∧
        o.Checks v s.toFields := by
  cases hxs : v.sequence? with
  | none =>
    rw [validatePositional_none hxs] at h
    exact .inl ⟨Outcome.missingPositional, by decide, (Except.ok.inj h).symm⟩
  | some xs =>
    cases hmode : isNamedSchema s with
    | true =>
      rw [validatePositional, hxs, hmode] at h
      exact .inl ⟨Outcome.missingSpec, by decide, (Except.ok.inj h).symm⟩
    | false =>
      cases hn : s.toFields with
      | error fault => simp [validatePositional, hxs, hmode, hn] at h
      | ok fields =>
        have hrun := validatePositional_some hxs hmode hn
        by_cases hempty : fields.isEmpty
        · rw [hrun, if_pos hempty] at h
          exact .inl ⟨Outcome.missingSpec, by decide, (Except.ok.inj h).symm⟩
        · rw [if_neg hempty] at hrun
          rw [hrun] at h
          have hc : o.Checks v (.ok fields) := by
            refine checks_of_checkFields (fun keys => ?_) h
            funext key
            rw [Outcome.get, entries?_of_sequence hxs, hxs]
          have hfields : fields = o.fields := Except.ok.inj hc.fields
          exact .inr ⟨xs, rfl, hfields ▸ hrun, hc⟩

theorem validateNamed_cases {v s : Value} {o : Outcome} (h : (validateNamed v s).result = .ok o) :
    (∃ message ∈ Outcome.messages, o = .structuralError message) ∨ o.Checks v s.toFields :=
  (validateNamed_ends h).imp_right fun ⟨_, _, _, hc⟩ => hc

theorem validatePositional_cases {v s : Value} {o : Outcome} (h : (validatePositional v s).result = .ok o) :
    (∃ message ∈ Outcome.messages, o = .structuralError message) ∨ o.Checks v s.toFields :=
  (validatePositional_ends h).imp_right fun ⟨_, _, _, hc⟩ => hc

theorem validateWith_cases {v s : Value} {o : Outcome} (h : (validateWith s v).result = .ok o) :
    (∃ message ∈ Outcome.messages, o = .structuralError message) ∨ o.Checks v s.toFields := by
  unfold validateWith at h
  split at h
  · exact validateNamed_cases h
  · exact validatePositional_cases h

theorem named_cases {v s : Value} {o : Outcome} (h : (named v s).result = .ok o) :
    (∃ message ∈ Outcome.messages, o = .structuralError message) ∨ o.Checks v (do normalizeEntries (← s.toFields)) := by
  unfold named at h
  simp only [Traced.result_bind, Traced.result_lift, bind_eq_ok] at h
  obtain ⟨fields, hfields, h⟩ := h
  rw [hfields, ok_bind]
  exact validateNamed_cases h

/-- The shape of a schema decides between the two modes, unless there is no schema at all. -/
theorem validate_eq (v s : Value) :
    validate v s = pure (.structuralError Outcome.missingSpec) ∨
      validate v s = validateNamed v (Request.freely v s).schema ∨
      validate v s = validatePositional v (Request.freely v s).schema := by
  unfold validate
  split
  · rename_i id raw fields
    unfold validateWith
    split
    · exact .inr (.inl rfl)
    · exact .inr (.inr rfl)
  · split
    · exact .inl rfl
    · rename_i htext
      exact .inr (.inr (by rw [Request.schema, htext]; rfl))
    · rename_i htext
      rw [Request.schema, htext]
      split
      · exact .inr (.inr rfl)
      · exact .inr (.inl rfl)

/-- **Every request ends in one of two ways**: with one of three messages, or in a check. -/
theorem Request.run_ends {r : Request} {o : Outcome} (h : r.run.result = .ok o) :
    (∃ message ∈ Outcome.messages, o = .structuralError message) ∨ o.Checks r.values r.fields := by
  cases r with
  | freely v s =>
    have hrun : (validate v s).result = .ok o := h
    rcases validate_eq v s with he | he | he
    · rw [he] at hrun
      exact .inl ⟨Outcome.missingSpec, by decide, (Except.ok.inj hrun).symm⟩
    · rw [he] at hrun
      exact validateNamed_cases hrun
    · rw [he] at hrun
      exact validatePositional_cases hrun
  | named v s => exact named_cases h
  | namedObject v s => exact named_cases h
  | namedStrictly v s => exact validateNamed_cases h
  | positional v args => exact validatePositional_cases h
  | positionalStrictly v s => exact validatePositional_cases h
  | bySchema s v => exact validateWith_cases h

theorem Request.run_cases {r : Request} {o : Outcome} (h : r.run.result = .ok o) :
    (∃ message, o = .structuralError message) ∨ o.Checks r.values r.fields :=
  (Request.run_ends h).imp_left fun ⟨message, _, he⟩ => ⟨message, he⟩

theorem Request.fields_cases (r : Request) :
    r.fields = r.schema.toFields ∨ r.fields = (do normalizeEntries (← r.schema.toFields)) := by
  cases r with
  | named v s => exact .inr rfl
  | namedObject v s => exact .inr rfl
  | _ => exact .inl rfl

theorem Request.fields_eq {r : Request} {fields : Entries} (hn : r.schema.toFields = .ok fields)
    (hspecs : ∀ f ∈ fields, ∃ isa optional, f.2 = .fieldSpec isa optional) : r.fields = .ok fields := by
  rcases r.fields_cases with he | he
  · rw [he, hn]
  · rw [he, hn, ok_bind, normalizeEntries_of_specs hspecs]

theorem Request.keyed_fields {r : Request} {fields fields' : Entries} (hn : r.schema.toFields = .ok fields)
    (hk : Entries.Keyed fields) (h : r.fields = .ok fields') : Entries.Keyed fields' := by
  rcases r.fields_cases with he | he
  · rw [he, hn] at h
    exact Except.ok.inj h ▸ hk
  · rw [he, hn, ok_bind] at h
    exact hk.normalize h

/-- The summary of an outcome is a text if and only if every failed field can be told. -/
theorem Request.errorString_iff {r : Request} {o : Outcome} {fields : Entries} (h : r.run.result = .ok o)
    (hn : r.schema.toFields = .ok fields) (hk : Entries.Keyed fields) :
    (∃ text, o.errorString = .ok (ofText text)) ↔ ∀ f ∈ o.fields, f.1 ∈ o.failedKeys → o.CanTell f := by
  rcases Request.run_cases h with ⟨message, rfl⟩ | hc
  · exact iff_of_true ⟨message, errorString_structural message⟩ (by simp [Outcome.structuralError])
  · have hkeyed := Request.keyed_fields hn hk hc.fields
    exact ArgSchema.errorString_iff hc.structural hkeyed (failingKeys_mem hc.failing)

/-- With fields that are all described, every failed field can be told. -/
theorem Request.errorString_text {r : Request} {o : Outcome} {fields : Entries} (h : r.run.result = .ok o)
    (hv : Measured r.values) (hn : r.schema.toFields = .ok fields) (hk : Entries.Keyed fields)
    (hd : ∀ f ∈ fields, Described f.2) : ∃ text, o.errorString = .ok (ofText text) := by
  have hspecs : ∀ f ∈ fields, ∃ isa optional, f.2 = .fieldSpec isa optional := fun f hf => by
    obtain ⟨isa, optional, -, he, -⟩ := hd f hf
    exact ⟨isa, optional, he⟩
  refine (Request.errorString_iff h hn hk).mpr fun f hf _ => ?_
  rcases Request.run_cases h with ⟨message, rfl⟩ | hc
  · simp [Outcome.structuralError] at hf
  · have hfields : o.fields = fields := by
      have he := hc.fields
      rw [Request.fields_eq hn hspecs] at he
      exact (Except.ok.inj he).symm
    rw [hfields] at hf
    exact Outcome.canTell (hc.values ▸ hv) (hfields ▸ hk) (hfields ▸ hf) (hd f hf)

/-! ### Plain schemas -/

/-- A schema stands for settled fields under keys that can be looked up. -/
def Value.Fits (s : Value) : Prop :=
  ∃ fields, s.toFields = .ok fields ∧ Entries.Keyed fields ∧ ∀ f ∈ fields, Settled f.2

theorem Plain.fits {s : Value} (hs : Plain s) (hm : Measured s) : s.Fits := by
  obtain ⟨fields, hn⟩ := hm.toFields_total
  exact ⟨fields, hn, hs.settled_fields hn⟩

theorem plain_ofList {items : List Value} (h : ∀ x ∈ items, Plain x ∧ Measured x) :
    Plain (ofList items) ∧ Measured (ofList items) :=
  ⟨.collection fun x hx => (h x hx).1, ⟨⟨_, rfl⟩, fun x hx => (h x hx).2⟩⟩

/-- What is so of everything that spells the schema of a request, and of a list of such, is so
of the schema. -/
theorem Request.schema_keeps {P : Value → Prop} (hlist : ∀ items : List Value, (∀ x ∈ items, P x) → P (ofList items))
    {r : Request} (h : ∀ s ∈ r.schemas, P s) : P r.schema := by
  cases r with
  | freely v s =>
    have hs := h s List.mem_cons_self
    show P (if s.text?.isSome then ofList [s] else s)
    by_cases ht : s.text?.isSome
    · rw [if_pos ht]
      exact hlist [s] (List.forall_mem_singleton.mpr hs)
    · rw [if_neg ht]
      exact hs
  | positional v args =>
    show P (spreadSchema args)
    unfold spreadSchema
    split
    · exact h _ List.mem_cons_self
    · split
      · exact h _ List.mem_cons_self
      · exact hlist _ h
    · exact hlist _ h
  | named v s => exact h s List.mem_cons_self
  | namedObject v s => exact h s List.mem_cons_self
  | namedStrictly v s => exact h s List.mem_cons_self
  | positionalStrictly v s => exact h s List.mem_cons_self
  | bySchema s v => exact h s List.mem_cons_self

/-! ### Checks return -/

theorem checkFields_total {mode : Mode} {v : Value} {fields : Entries} {value : Value → Except Fault Value}
    (hvalue : ∀ f ∈ fields, ∃ w, value f.1 = .ok w ∧ Measured w) (hs : ∀ f ∈ fields, Settled f.2) :
    ∃ o, (checkFields mode v fields value).result = .ok o := by
  have hfound : ∀ f ∈ fields, value f.1 = .ok ((value f.1).toOption.getD null) ∧
      Measured ((value f.1).toOption.getD null) := fun f hf => by
    obtain ⟨w, hw, hm⟩ := hvalue f hf
    rw [hw]
    exact ⟨rfl, hm⟩
  have hkeys := failingKeys_result (w := fun k => (value k).toOption.getD null) (fun f hf => (hfound f hf).1)
    fun f hf => (hs f hf).result (hfound f hf).2
  exact ⟨_, by rw [checkFields_result, hkeys, ok_bind]⟩

theorem validateNamed_total {v s : Value} (hv : Measured v) (hs : s.Fits) :
    ∃ o, (validateNamed v s).result = .ok o := by
  obtain ⟨fields, hn, hk, hsettled⟩ := hs
  unfold validateNamed
  cases hvs : v.entries? with
  | none => exact ⟨_, rfl⟩
  | some vs =>
    simp only [Traced.result_bind, Traced.result_lift, hn, ok_bind]
    split
    · exact ⟨_, rfl⟩
    · exact checkFields_total (fun f hf => ⟨_, valueAt_eq (hk.hashable f.1 (List.mem_map_of_mem hf)),
        hv.held hvs f.1⟩) hsettled

theorem validatePositional_total {v s : Value} (hv : Measured v) (hs : s.Fits) :
    ∃ o, (validatePositional v s).result = .ok o := by
  obtain ⟨fields, hn, hk, hsettled⟩ := hs
  unfold validatePositional
  cases hxs : v.sequence? with
  | none => exact ⟨_, rfl⟩
  | some xs =>
    simp only
    split
    · exact ⟨_, rfl⟩
    · simp only [Traced.result_bind, Traced.result_lift, hn, ok_bind]
      split
      · exact ⟨_, rfl⟩
      · exact checkFields_total (fun f _ => hv.get hxs f.1) hsettled

theorem named_total {v s : Value} (hv : Measured v) (hs : s.Fits) : ∃ o, (named v s).result = .ok o := by
  obtain ⟨fields, hn, hk, hsettled⟩ := hs
  have hfits : (ofEntries fields).Fits := ⟨fields, normalizeEntries_settled hsettled, hk, hsettled⟩
  unfold named
  rw [Traced.result_bind, Traced.result_lift, hn, ok_bind]
  exact validateNamed_total hv hfits

theorem validateWith_total {v s : Value} (hv : Measured v) (hs : s.Fits) :
    ∃ o, (validateWith s v).result = .ok o := by
  unfold validateWith
  split
  · exact validateNamed_total hv hs
  · exact validatePositional_total hv hs

theorem Request.run_total {r : Request} (hv : Measured r.values) (hs : r.schema.Fits) :
    ∃ o, r.run.result = .ok o := by
  cases r with
  | freely v s =>
    show ∃ o, (validate v s).result = .ok o
    rcases validate_eq v s with he | he | he
    · exact ⟨_, by rw [he]; rfl⟩
    · rw [he]
      exact validateNamed_total hv hs
    · rw [he]
      exact validatePositional_total hv hs
  | named v s => exact named_total hv hs
  | namedObject v s => exact named_total hv hs
  | namedStrictly v s => exact validateNamed_total hv hs
  | positional v args => exact validatePositional_total hv hs
  | positionalStrictly v s => exact validatePositional_total hv hs
  | bySchema s v => exact validateWith_total hv hs

/-! ### Nothing fails afterwards -/

theorem sequence?_range {v : Value} {start stop step : Int} (h : v.sequence? = some (.range start stop step)) :
    v = .atom (.range start stop step) := by
  cases v with
  | collection kind => cases kind <;> simp [sequence?] at h
  | atom a =>
    cases a with
    | range => simpa [sequence?] using h
    | bytes kind => cases kind <;> simp [sequence?] at h
    | text kind => cases kind <;> simp [sequence?] at h
    | _ => simp [sequence?] at h
  | _ => simp [sequence?] at h

/-- The values of an outcome can be listed unless they are a range of more numbers than there is room for. -/
theorem valueList_error {o : Outcome} {room : Nat} {fault : Fault} (hm : Measured o.values)
    (h : o.valueList room = .error fault) : fault = .noMemory ∧ ∃ start stop step,
      o.values = .atom (.range start stop step) ∧ room < rangeLength start stop step := by
  unfold Outcome.valueList at h
  cases hvs : o.values.entries? with
  | some vs => simp [hvs] at h
  | none =>
    cases hxs : o.values.sequence? with
    | none => simp [hvs, hxs] at h
    | some xs =>
      simp only [hvs, hxs] at h
      cases xs with
      | items items => simp [Sequence.toList] at h
      | range start stop step =>
        have hvalues := sequence?_range hxs
        rw [hvalues] at hm
        rw [Sequence.toList, hm.rangeSize, ok_bind] at h
        split at h
        · simp at h
        · rename_i hlimit
          exact ⟨by simpa using h.symm, start, stop, step, hvalues, Nat.lt_of_not_le hlimit⟩

/-- **Requests always return**, and what is asked of an outcome returns: its summary is a
text, checking it faults just if it is not valid, and with that text and the failed keys.
Only the values cannot be listed if they are a range of more numbers than a list has room
for, however much room there is. A single field is decided as well. -/
theorem Request.returns {r : Request} (hv : Measured r.values) (hs : ∀ s ∈ r.schemas, Plain s ∧ Measured s)
    {v x : Value} (hmv : Measured v) (hx : Plain x) (hmx : Measured x) :
    (∃ o text, r.run.result = .ok o ∧ o.errorString = .ok (ofText text) ∧
      o.check = (if o.isValid then .ok () else .error (.invalid (ofText text) o.failedKeys)) ∧
      ∀ room fault, o.valueList room = .error fault → fault = .noMemory ∧ ∃ start stop step,
        r.values = .atom (.range start stop step) ∧ room < rangeLength start stop step) ∧
    ∃ b, (isFieldValid v x).result = .ok (ofBool b) := by
  constructor
  · obtain ⟨hplain, hmeasured⟩ := Request.schema_keeps (fun _ => plain_ofList) hs
    obtain ⟨fields, hn, hk, hsettled⟩ := hplain.fits hmeasured
    obtain ⟨o, ho⟩ := Request.run_total hv ⟨fields, hn, hk, hsettled⟩
    obtain ⟨text, htext⟩ := Request.errorString_text ho hv hn hk fun f hf => (hsettled f hf).described
    refine ⟨o, text, ho, htext, ?_, ?_⟩
    · rw [Outcome.check, htext]
      rfl
    · intro room fault hfault
      rcases Request.run_cases ho with ⟨message, rfl⟩ | hc
      -- a structural outcome holds no values at all
      · simp [Outcome.structuralError, Outcome.valueList, entries?, sequence?, null] at hfault
      · have hm : Measured o.values := hc.values ▸ hv
        have := valueList_error hm hfault
        rwa [hc.values] at this
  · obtain ⟨spec, hspec⟩ := hmx.toField_total
    refine ⟨passes v spec, ?_⟩
    rw [isFieldValid, Traced.result_bind, Traced.result_lift, hspec, ok_bind]
    exact (hx.settled_field hspec).result hmv

/-- A negative age, asked for by name and listed in whatever room, and a single number. -/
theorem Request.returns_age :
    (∃ o text, (Request.named (ofEntries [(ofText "age", ofInt (-1))])
        (ofEntries [(ofText "age", ofText "natural")])).run.result = .ok o ∧ o.errorString = .ok (ofText text) ∧
      ∀ room, ∃ xs, o.valueList room = .ok xs) ∧
    ∃ b, (isFieldValid (ofInt 3) (ofText "natural")).result = .ok (ofBool b) := by
  have hnatural : Plain (ofText "natural") ∧ Measured (ofText "natural") := ⟨.atom _, measured_atom ⟨_, rfl⟩⟩
  have hs : Plain (ofEntries [(ofText "age", ofText "natural")]) :=
    plain_named ["age"] rfl (by decide) (List.forall_mem_singleton.mpr hnatural.1)
  have hms : Measured (ofEntries [(ofText "age", ofText "natural")]) :=
    measured_named ["age"] rfl (List.forall_mem_singleton.mpr hnatural.2)
  have hv : Measured (ofEntries [(ofText "age", ofInt (-1))]) :=
    measured_named ["age"] rfl (List.forall_mem_singleton.mpr (measured_atom ⟨_, rfl⟩))
  have hthree : Measured (ofInt 3) := measured_atom ⟨_, rfl⟩
  obtain ⟨⟨o, text, ho, htext, -, hvalues⟩, hfield⟩ :=
    Request.returns (r := .named (ofEntries [(ofText "age", ofInt (-1))]) (ofEntries [(ofText "age", ofText "natural")]))
      hv (List.forall_mem_singleton.mpr ⟨hs, hms⟩) hthree hnatural.1 hnatural.2
  refine ⟨⟨o, text, ho, htext, fun room => ?_⟩, hfield⟩
  cases hxs : o.valueList room with
  | ok xs => exact ⟨xs, rfl⟩
  | error fault =>
    obtain ⟨-, start, stop, step, hrange, -⟩ := hvalues room fault hxs
    simp [Request.values, ofEntries] at hrange

/-- A range of `2 ^ 53 - 1` numbers is valid by its first number, and cannot be listed with less room. -/
theorem valueList_hugeRange :
    Measured (.atom (.range 0 9007199254740991 1)) ∧ Plain (ofList [ofText "whole"]) ∧ Measured (ofList [ofText "whole"]) ∧
      ∃ o, (validatePositional (.atom (.range 0 9007199254740991 1)) (ofList [ofText "whole"])).result = .ok o ∧
        o.isValid = true ∧ ∀ room < 9007199254740991, o.valueList room = .error .noMemory := by
  have hwhole : Plain (ofText "whole") ∧ Measured (ofText "whole") := ⟨.atom _, measured_atom ⟨_, rfl⟩⟩
  obtain ⟨hs, hms⟩ := plain_ofList (List.forall_mem_singleton.mpr hwhole)
  refine ⟨measured_atom ⟨some 9007199254740991, rfl⟩, hs, hms, _, rfl, rfl, fun room hroom => ?_⟩
  have hsize : rangeSize 0 9007199254740991 1 = .ok 9007199254740991 := rfl
  show (rangeSize 0 9007199254740991 1 >>= fun n => if n ≤ room then _ else _) = _
  rw [hsize, ok_bind, if_neg (Nat.not_le_of_lt hroom)]

end ArgSchema
