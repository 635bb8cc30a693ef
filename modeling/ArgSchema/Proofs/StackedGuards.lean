/-
# Guards around guards

A guard decides on a call before the body is reached: the call passes, or it is stopped with the
records of the check and a fault (`start_guardWith_verdict`). It passes if its arguments fit and the
value of every field passes (`verdict_eq_passed_iff`); then nothing was written either, since a
failure inside a field would have been a failure of the field (`Settled.silent`). No value has to be
measured for that.

A guarded function keeps its signature, so another guard around it binds the same arguments. Its
verdict comes first, and that of the inner guard counts if it lets the call through
(`Verdict.andThen`). As no field looks at another one, guards by schemas without a common key let
a call through, one around the other, just if the guard by all their entries does (`guard_stacked`).

Key definitions: `Verdict`, `Verdict.andThen`, `verdict`, `Callable.judged`, `StackedGuards`,
`StackedVerdicts`.
-/
import ArgSchema.Proofs.Guarding
import ArgSchema.Proofs.Splitting

namespace ArgSchema

open Value

/-! ### What passes writes nothing -/

theorem Traced.eq_pure {α : Type} {x : Traced α} {a : α} (hlog : x.log = []) (hresult : x.result = .ok a) :
    x = pure a := by
  obtain ⟨log, result⟩ := x
  obtain rfl : log = [] := hlog
  obtain rfl : result = .ok a := hresult
  rfl

theorem passing_iff {v spec : Value} :
    (fieldResult v spec).result = .ok (ofBool true) ↔ Decides v spec ∧ passes v spec = true := by
  constructor
  · intro h
    have hpasses := passes_of_result h
    exact ⟨by rw [Decides, h, hpasses], hpasses⟩
  · rintro ⟨hdecides, hpasses⟩
    rw [Decides, hpasses] at hdecides
    exact hdecides

/-- Fields that pass without a record are checked without a record. -/
theorem failingKeys_passing {value : Value → Except Fault Value} {w : Value → Value} : ∀ {fields : Entries},
    (∀ f ∈ fields, value f.1 = .ok (w f.1)) → (∀ f ∈ fields, fieldResult (w f.1) f.2 = pure (ofBool true)) →
    failingKeys value fields = pure []
  | [], _, _ => by rw [failingKeys]
  | (k, x) :: rest, hvalue, hpass => by
    have hv : value k = .ok (w k) := hvalue (k, x) List.mem_cons_self
    have hx : fieldResult (w k) x = pure (ofBool true) := hpass (k, x) List.mem_cons_self
    rw [failingKeys, hv, failingKeys_passing (fun f hf => hvalue f (List.mem_cons_of_mem _ hf))
      fun f hf => hpass f (List.mem_cons_of_mem _ hf)]
    simp [hx, truth_ofBool]

/-- Nested fields that are met leave no record if none of them does. -/
theorem log_meets_met {v : Value} {ws fields : Entries} (hws : v.entries? = some ws) (hkeys : Entries.Keyed fields)
    (hspecs : ∀ f ∈ fields, Settled f.2) (hmet : (meets v false (.nested fields)).result = .ok true)
    (hsilent : ∀ f ∈ fields, (fieldResult (held ws f.1) f.2).result = .ok (ofBool true) →
      fieldResult (held ws f.1) f.2 = pure (ofBool true)) : (meets v false (.nested fields)).log = [] := by
  have hdecides := decides_of_nested hws hkeys hspecs hmet
  rw [meets_nested hws hkeys hspecs hdecides] at hmet
  obtain ⟨hne, hall⟩ : fields ≠ [] ∧ ∀ f ∈ fields, passes (held ws f.1) f.2 = true := by simpa using hmet
  have hpass : failingKeys (valueAt ws) fields = pure [] :=
    failingKeys_passing (fun f hf => valueAt_eq (hkeys.hashable f.1 (List.mem_map_of_mem hf)))
      fun f hf => hsilent f hf (passing_iff.mpr ⟨hdecides f hf, hall f hf⟩)
  rw [log_meets_nested hws (normalizeEntries_settled hspecs) hne hpass]
  rfl

/-- **A field whose value passes leaves no record.** -/
theorem Settled.silent {spec : Value} (h : Settled spec) : ∀ {v : Value},
    (fieldResult v spec).result = .ok (ofBool true) → fieldResult v spec = pure (ofBool true) := by
  -- the result is known, so only the records are in question
  suffices hlog : ∀ v, (fieldResult v spec).result = .ok (ofBool true) → (fieldResult v spec).log = [] from
    fun {_} hv => Traced.eq_pure (hlog _ hv) hv
  induction h with
  | typeName => exact fun v _ => by simp [log_fieldResult, meets]
  | instanceOf => exact fun v _ => by simp [log_fieldResult, meets]
  | unsatisfiable => exact fun v _ => by simp [log_fieldResult, meets]
  | @nested fields hkeys hspecs optional ih =>
    intro v hv
    rw [log_fieldResult]
    split
    · rfl
    · rename_i hnull
      have hnull : v.isNull = false := by simpa using hnull
      obtain ⟨hdecides, hpasses⟩ := passing_iff.mp hv
      obtain ⟨met, hmet⟩ := hdecides.meets hnull
      obtain rfl : met = true := by simpa [passes_of_meets hmet, hnull] using hpasses
      cases hws : v.entries? with
      | none => exact log_meets_noMapping hws fields
      | some ws =>
        exact log_meets_met hws hkeys hspecs hmet fun f hf hpass => Traced.eq_pure (ih f hf _ hpass) hpass

/-! ### Verdicts -/

/-- What is decided on a call before the body: it passes, or it is stopped with the records of its
check and a fault. -/
inductive Verdict where
  | passed
  | stopped (log : List Record) (fault : Fault)

namespace Verdict

/-- Of two verdicts, one after the other, the first one that stops the call. -/
def andThen : Verdict → Verdict → Verdict
  | .passed, v => v
  | .stopped log fault, _ => .stopped log fault

theorem andThen_eq_passed {v w : Verdict} : v.andThen w = .passed ↔ v = .passed ∧ w = .passed := by
  cases v <;> simp [andThen]

end Verdict

/-- The verdict on a call of a function that is guarded by fields. -/
def verdict (s : Signature) (fields : Entries) (call : Call) : Verdict :=
  match checkCall s fields call with
  | ⟨_, .ok ()⟩ => .passed
  | ⟨log, .error fault⟩ => .stopped log fault

/-- What a call comes to under a verdict: what it would be without a guard, or the fault. -/
def Callable.judged {β : Type} (f : Callable β) (v : Verdict) (call : Call) : Started β :=
  match v with
  | .passed => f.start call
  | .stopped log fault => f.started ⟨log, .error fault⟩

theorem Outcome.check_eq_ok {o : Outcome} : o.check = .ok () ↔ o.isValid = true := by
  unfold Outcome.check
  split
  · rename_i hvalid
    exact iff_of_true rfl hvalid
  · rename_i hvalid
    refine iff_of_false (fun h => ?_) hvalid
    obtain ⟨message, -, h⟩ := bind_eq_ok.mp h
    cases h

/-- Fields that plain entries stand for, at least one. -/
structure Entries.Checkable (fields : Entries) : Prop where
  keyed : Entries.Keyed fields
  settled : ∀ f ∈ fields, Settled f.2
  nonempty : fields ≠ []

theorem Entries.Checkable.toFields {fields : Entries} (h : fields.Checkable) :
    (ofEntries fields).toFields = .ok fields := normalizeEntries_settled h.settled

/-- Where every field passes the validation is valid, and leaves no record. -/
theorem validateNamed_passing {fields vs : Entries} {v : Value} (h : fields.Checkable) (hvs : v.entries? = some vs)
    (hpass : ∀ f ∈ fields, (fieldResult (held vs f.1) f.2).result = .ok (ofBool true)) :
    validateNamed v (ofEntries fields) = pure ⟨[], v, fields, false⟩ := by
  have hfailing : failingKeys (valueAt vs) fields = pure [] :=
    failingKeys_passing (fun f hf => valueAt_eq (h.keyed.hashable f.1 (List.mem_map_of_mem hf)))
      fun f hf => (h.settled f hf).silent (hpass f hf)
  rw [validateNamed_some hvs h.toFields, if_neg (by simpa using h.nonempty), checkFields, hfailing]
  simp [report]

/-- The fields of a valid outcome all pass. -/
theorem passing_of_valid {fields vs : Entries} {v : Value} {o : Outcome} (h : fields.Checkable)
    (hvs : v.entries? = some vs) (ho : (validateNamed v (ofEntries fields)).result = .ok o) (hvalid : o.isValid = true) :
    ∀ f ∈ fields, (fieldResult (held vs f.1) f.2).result = .ok (ofBool true) := by
  have hdecides := decides_of_validateNamed h.toFields h.keyed h.settled h.nonempty hvs ho
  rw [validateNamed_decided h.toFields h.keyed h.nonempty hvs hdecides] at ho
  obtain rfl := Except.ok.inj ho
  have hall : ∀ f ∈ fields, passes (held vs f.1) f.2 = true := by simpa [Outcome.isValid] using hvalid
  exact fun f hf => passing_iff.mpr ⟨hdecides f hf, hall f hf⟩

section

variable {fields : Entries} {s : Signature} {call : Call}

/-- A call that fits is checked without a record or a fault if every field passes. -/
theorem checkCall_eq_pure {arguments : Arguments} (h : fields.Checkable) (hbind : s.bind call = .ok arguments)
    (hpass : ∀ f ∈ fields, (fieldResult (held arguments.entries f.1) f.2).result = .ok (ofBool true)) :
    checkCall s fields call = pure () :=
  checkCall_bound hbind (validateNamed_passing h (v := arguments.toValue) rfl hpass)

theorem passing_of_checkCall (h : fields.Checkable) (hcheck : (checkCall s fields call).result = .ok ()) :
    ∃ arguments, s.bind call = .ok arguments ∧
      ∀ f ∈ fields, (fieldResult (held arguments.entries f.1) f.2).result = .ok (ofBool true) := by
  cases hbind : s.bind call with
  | error fault =>
    rw [checkCall_unbound hbind] at hcheck
    cases hcheck
  | ok arguments =>
    simp only [checkCall, boundArguments, hbind, Traced.result_bind, Traced.result_lift, ok_bind] at hcheck
    obtain ⟨o, ho, hvalid⟩ := bind_eq_ok.mp hcheck
    exact ⟨arguments, rfl, passing_of_valid h (v := arguments.toValue) rfl ho (Outcome.check_eq_ok.mp hvalid)⟩

/-- **A call passes** just if its arguments fit and the value of every field passes. -/
theorem verdict_eq_passed_iff (h : fields.Checkable) : verdict s fields call = .passed ↔
    ∃ arguments, s.bind call = .ok arguments ∧
      ∀ f ∈ fields, (fieldResult (held arguments.entries f.1) f.2).result = .ok (ofBool true) := by
  constructor
  · intro hpassed
    refine passing_of_checkCall h ?_
    unfold verdict at hpassed
    split at hpassed
    · rename_i hcheck
      rw [hcheck]
    · cases hpassed
  · rintro ⟨arguments, hbind, hpass⟩
    rw [verdict, checkCall_eq_pure h hbind hpass]
    rfl

/-- **A guarded function does with a call what its verdict says.** -/
theorem start_guardWith_verdict (h : fields.Checkable) {β : Type} (f : Callable β) (call : Call) :
    (guardWith fields f).start call = f.judged (verdict f.signature fields call) call := by
  rw [Callable.start_guardWith]
  cases hv : verdict f.signature fields call with
  | passed =>
    obtain ⟨arguments, hbind, hpass⟩ := (verdict_eq_passed_iff h).mp hv
    rw [checkCall_eq_pure h hbind hpass, pure_bind]
    rfl
  | stopped log fault =>
    unfold verdict at hv
    split at hv
    · cases hv
    · rename_i log' fault' hcheck
      obtain ⟨rfl, rfl⟩ := Verdict.stopped.inj hv
      rw [hcheck]
      rfl

end

/-! ### Two guards -/

section

variable {fields₁ fields₂ fields : Entries}

/-- Of two guards the outer one decides first. Both have the signature of the function. -/
theorem start_guardWith_guardWith (h₁ : fields₁.Checkable) (h₂ : fields₂.Checkable) {β : Type} (f : Callable β)
    (call : Call) : (guardWith fields₁ (guardWith fields₂ f)).start call =
      f.judged ((verdict f.signature fields₁ call).andThen (verdict f.signature fields₂ call)) call := by
  have hsignature : (guardWith fields₂ f).signature = f.signature := rfl
  rw [start_guardWith_verdict h₁, hsignature]
  cases verdict f.signature fields₁ call with
  | passed => exact start_guardWith_verdict h₂ f call
  | stopped log fault => rfl

/-- Two guards let a call through just if one by the fields of both does. -/
theorem Interleaves.verdict_iff (h : Interleaves fields₁ fields₂ fields) (h₁ : fields₁.Checkable)
    (h₂ : fields₂.Checkable) (hall : fields.Checkable) (s : Signature) (call : Call) :
    (verdict s fields₁ call).andThen (verdict s fields₂ call) = .passed ↔ verdict s fields call = .passed := by
  rw [Verdict.andThen_eq_passed, verdict_eq_passed_iff h₁, verdict_eq_passed_iff h₂, verdict_eq_passed_iff hall]
  constructor
  · rintro ⟨⟨arguments, hbind, hpass₁⟩, arguments', hbind', hpass₂⟩
    obtain rfl := Except.ok.inj (hbind.symm.trans hbind')
    exact ⟨arguments, hbind, fun f hf => (h.mem_iff.mp hf).elim (hpass₁ f) (hpass₂ f)⟩
  · rintro ⟨arguments, hbind, hpass⟩
    exact ⟨⟨arguments, hbind, fun f hf => hpass f (h.mem_iff.mpr (.inl hf))⟩,
      arguments, hbind, fun f hf => hpass f (h.mem_iff.mpr (.inr hf))⟩

end

theorem Plain.checkable {s : Value} {es fields : Entries} (hs : Plain s) (hes : s.entries? = some es) (hne : es ≠ [])
    (hn : s.toFields = .ok fields) : fields.Checkable := by
  obtain ⟨hkeys, hsettled⟩ := hs.settled_fields hn
  rw [toFields_of_entries hes] at hn
  exact ⟨hkeys, hsettled, mt (normalizeEntries_eq_nil hn).mp hne⟩

section

variable {β : Type}

/-- A function `f` with a guard by each of two schemas, with both of them, the second inside, and with
one guard by all entries, whose fields are `fields`. -/
structure StackedGuards (s₁ s₂ : Value) (merged fields : Entries) (f g₁ g₂ stacked g : Callable β) : Prop where
  outer : guard (some s₁) [] f = .ok g₁
  inner : guard (some s₂) [] f = .ok g₂
  stacked : guard (some s₁) [] g₂ = .ok stacked
  single : guard (some (ofEntries merged)) [] f = .ok g
  fields : (ofEntries merged).toFields = .ok fields

/-- What these guards do with calls, by the verdicts of the fields that they check. -/
structure StackedVerdicts (fields₁ fields₂ fields : Entries) (f g₁ g₂ stacked g : Callable β) : Prop where
  outer (call : Call) : g₁.start call = f.judged (verdict f.signature fields₁ call) call
  inner (call : Call) : g₂.start call = f.judged (verdict f.signature fields₂ call) call
  single (call : Call) : g.start call = f.judged (verdict f.signature fields call) call
  /-- The outer verdict comes first, and the inner one counts for the calls that it lets through. -/
  stacked (call : Call) : stacked.start call =
    f.judged ((verdict f.signature fields₁ call).andThen (verdict f.signature fields₂ call)) call
  /-- The two guards let a call through just if the one by all entries does. -/
  passed (call : Call) : (verdict f.signature fields₁ call).andThen (verdict f.signature fields₂ call) = .passed ↔
    verdict f.signature fields call = .passed

/-- **Guards around guards.** A function is guarded by two schemas without a common key, neither of
them empty, one around the other, and beside that by the schema of all their entries, which there is
a guard by if there is one by each of the two. The outer verdict comes first, and the inner one counts
for the calls that it lets through. The body is reached just if it is with the one guard by all
entries. -/
theorem guard_stacked {s₁ s₂ : Value} {es₁ es₂ : Entries} (hs₁ : Plain s₁) (hs₂ : Plain s₂)
    (hes₁ : s₁.entries? = some es₁) (hes₂ : s₂.entries? = some es₂) (hne₁ : es₁ ≠ []) (hne₂ : es₂ ≠ [])
    (hdisjoint : ∀ e₁ ∈ es₁, ∀ e₂ ∈ es₂, e₁.1.key ≠ e₂.1.key) (f : Callable β) :
    ∃ merged, Entries.insertAll es₁ es₂ = .ok merged ∧
      ((∃ g, guard (some (ofEntries merged)) [] f = .ok g) ↔
        (∃ g₁, guard (some s₁) [] f = .ok g₁) ∧ ∃ g₂, guard (some s₂) [] f = .ok g₂) ∧
      ∀ fields₁ fields₂, s₁.toFields = .ok fields₁ → s₂.toFields = .ok fields₂ →
        ∃ fields g₁ g₂ stacked g, StackedGuards s₁ s₂ merged fields f g₁ g₂ stacked g ∧
          StackedVerdicts fields₁ fields₂ fields f g₁ g₂ stacked g := by
  have hdeclared₁ := declared_of_entries hes₁
  have hdeclared₂ := declared_of_entries hes₂
  have hkeyed : Entries.Keyed (es₁ ++ es₂) := (hdeclared₁ ▸ hs₁.keyed).append (hdeclared₂ ▸ hs₂.keyed) hdisjoint
  have hs : Plain (ofEntries (es₁ ++ es₂)) := .mapping hkeyed fun e he =>
    (List.mem_append.mp he).elim (hs₁.declared e <| hdeclared₁ ▸ ·) (hs₂.declared e <| hdeclared₂ ▸ ·)
  have hto₁ := toFields_of_entries hes₁
  have hto₂ := toFields_of_entries hes₂
  have hto : (ofEntries (es₁ ++ es₂)).toFields = normalizeEntries (es₁ ++ es₂) := rfl
  have hsplit := Interleaves.append es₁ es₂
  refine ⟨es₁ ++ es₂, insertAll_of_keyed hkeyed, ?_, fun fields₁ fields₂ hn₁ hn₂ => ?_⟩
  · rw [exists_guard_iff, exists_guard_iff, exists_guard_iff, hto, hto₁, hto₂]
    constructor
    · rintro ⟨fields, hn⟩
      obtain ⟨fields₁, fields₂, hn₁, hn₂, -⟩ := hsplit.fields hn
      exact ⟨⟨fields₁, hn₁⟩, fields₂, hn₂⟩
    · rintro ⟨⟨fields₁, hn₁⟩, fields₂, hn₂⟩
      obtain ⟨fields, hn, -⟩ := hsplit.fields_total hn₁ hn₂
      exact ⟨fields, hn⟩
  · obtain ⟨fields, hn, hfields⟩ := hsplit.fields_total (hto₁.symm.trans hn₁) (hto₂.symm.trans hn₂)
    have h₁ := hs₁.checkable hes₁ hne₁ hn₁
    have h₂ := hs₂.checkable hes₂ hne₂ hn₂
    have hn : (ofEntries (es₁ ++ es₂)).toFields = .ok fields := hn
    have hall : Entries.Checkable fields := hs.checkable rfl (List.append_ne_nil_of_left_ne_nil hne₁ es₂) hn
    exact ⟨fields, _, _, _, _,
      { outer := guard_of_fields hn₁ f
        inner := guard_of_fields hn₂ f
        stacked := guard_of_fields hn₁ _
        single := guard_of_fields hn f
        fields := hn },
      { outer := start_guardWith_verdict h₁ f
        inner := start_guardWith_verdict h₂ f
        single := start_guardWith_verdict hall f
        stacked := start_guardWith_guardWith h₁ h₂ f
        passed := hfields.verdict_iff h₁ h₂ hall f.signature }⟩

end

/-- The two parameters of a coroutine function, each with a guard of its own. A call with two wrong
arguments is refused by the outer guard, one whose first argument is right by the inner one. -/
theorem guard_stacked_named :
    let s₁ := ofEntries [(ofText "a", ofText "string")]
    let s₂ := ofEntries [(ofText "b", ofText "natural")]
    let f : Callable (List Value) := {
      name := "f", doc := "", coroutine := true
      signature := [⟨"a", .standard, none⟩, ⟨"b", .standard, some (ofInt 0)⟩]
      body := fun call => ⟨[.loading "f"], .ok call.positions⟩ }
    ∃ g₂ stacked, guard (some s₂) [] f = .ok g₂ ∧ guard (some s₁) [] g₂ = .ok stacked ∧
      stacked.start ⟨[ofText "x"], []⟩ = .waiting ⟨[.loading "f"], .ok [ofText "x"]⟩ ∧
      stacked.start ⟨[ofInt 1, ofInt (-1)], []⟩ = .waiting ⟨[.failed .named [ofText "a"]],
        .error (.invalid (ofText "named argument a is not a \"string\"") [ofText "a"])⟩ ∧
      stacked.start ⟨[ofText "x", ofInt (-1)], []⟩ = .waiting ⟨[.failed .named [ofText "b"]],
        .error (.invalid (ofText "named argument b is not a \"natural\"") [ofText "b"])⟩ := by
  intro s₁ s₂ f
  have hs : ∀ name type, Plain (ofEntries [(ofText name, ofText type)]) := fun name type =>
    plain_named [name] rfl (List.nodup_singleton name) (List.forall_mem_singleton.mpr (.atom _))
  have hdisjoint : ∀ e₁ ∈ [(ofText "a", ofText "string")], ∀ e₂ ∈ [(ofText "b", ofText "natural")],
      e₁.1.key ≠ e₂.1.key := by simp [key_ofText]
  obtain ⟨merged, -, -, hguards⟩ := guard_stacked (hs "a" "string") (hs "b" "natural") rfl rfl (by simp) (by simp)
    hdisjoint f
  obtain ⟨fields, g₁, g₂, stacked, g, hmade, hcalls⟩ := hguards _ _ rfl rfl
  refine ⟨g₂, stacked, hmade.inner, hmade.stacked, ?_, ?_, ?_⟩
  · rw [hcalls.stacked]
    rfl
  · rw [hcalls.stacked]
    rfl
  · rw [hcalls.stacked]
    rfl

end ArgSchema
