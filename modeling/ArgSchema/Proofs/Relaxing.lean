/-
# Relaxing a schema

A schema is relaxed by leaving fields out, though not all of them, by making fields optional,
and by asking for less: for a named type that takes in the one before (`NamedType.Within`), for
a mapping, or any object, in place of nested fields, and for nested fields that are relaxed in
the same way. What a relaxed schema rejects was rejected before (`validateNamed_relaxed`).

A check may stop with a fault, so the lemmas speak of two answers at once: the relaxed check
answers wherever the check before it does, and accepts what that one accepts (`Implied`). It
goes by induction on how a spec was relaxed (`SpecRelaxes.implied`).

Key definitions: `NamedType.Within`, `SpecRelaxes`, `Entries.Relaxes`.
-/
import Mathlib.Logic.Relation
import ArgSchema.Proofs.BuiltSchemas

namespace ArgSchema

open Value

/-- The second answer follows from the first: it is given if that one is, and is yes if that
one is. -/
def Implied (r r' : Except Fault Bool) : Prop := ∀ b, r = .ok b → ∃ b', r' = .ok b' ∧ (b = true → b' = true)

theorem Implied.refl (r : Except Fault Bool) : Implied r r := fun b h => ⟨b, h, id⟩

theorem Implied.trans {r r' r'' : Except Fault Bool} (h : Implied r r') (h' : Implied r' r'') : Implied r r'' := by
  intro b hb
  obtain ⟨b', hb', himp⟩ := h b hb
  obtain ⟨b'', hb'', himp'⟩ := h' b' hb'
  exact ⟨b'', hb'', himp' ∘ himp⟩

theorem Implied.ok {b b' : Bool} (h : b = true → b' = true) : Implied (.ok b) (.ok b') := by
  intro c hc
  obtain rfl := Except.ok.inj hc
  exact ⟨b', rfl, h⟩

/-! ### Named types that take in others -/

namespace NamedType

/-- The types right above a type. -/
def above : NamedType → List NamedType
  | .natural => [.whole]
  | .whole => [.finite]
  | .finite => [.number]
  | .number => [.real]
  | .real => [.number]
  | .array | .plainObject | .date | .regexp | .element => [.object]
  | _ => []

/-- A type lies within another one if steps upwards lead there. -/
def Within : NamedType → NamedType → Prop := Relation.ReflTransGen fun t t' => t' ∈ t.above

theorem ofName?_name (t : NamedType) : ofName? t.name = some t := by
  cases t <;> decide

end NamedType

theorem Double.isFinite_of_isWhole {x : Double} (h : x.isWhole = true) : x.isFinite = true := by
  cases x with
  | finite => rfl
  | _ => simp [isWhole, remainder, isZero] at h

theorem Quantity.isFinite_of_isWhole {q : Quantity} (h : q.isWhole = true) : q.isFinite = true := by
  cases q with
  | double x => exact Double.isFinite_of_isWhole h
  | _ => rfl

/-- No date, pattern or element is null, text, bytes or a number. -/
theorem Class.isSubclass_object {c : Class}
    (h : c.isSubclass .date ∨ c.isSubclass .pattern ∨ c.isSubclass .element) :
    c ≠ .noneType ∧ (c.isSubclass .str || c.isSubclass .bytes || c.isSubclass .number) = false := by
  revert h
  cases c <;> decide

theorem isObject_of_class {v : Value} (h : v.isA .date ∨ v.isA .pattern ∨ v.isA .element) : v.isObject = true := by
  obtain ⟨hnone, hscalar⟩ := Class.isSubclass_object h
  have hnull : v.isNull = false := by
    rw [Bool.eq_false_iff]
    intro hv
    exact hnone (by rw [isNull_iff.mp hv]; rfl)
  rw [isObject, hnull]
  simpa [isA, and_assoc] using hscalar

theorem isObject_of_listItems {v : Value} (h : v.listItems?.isSome = true) : v.isObject = true := by
  cases v with
  | collection kind id items => cases kind <;> rfl
  | _ => cases h

theorem isObject_of_entries {v : Value} (h : v.entries?.isSome = true) : v.isObject = true := by
  cases v with
  | mapping kind id es => cases kind <;> rfl
  | _ => cases h

/-- One step upwards takes in every value of the type. -/
theorem NamedType.holds_above {t t' : NamedType} (h : t' ∈ t.above) (v : Value) :
    Implied (t.holds v) (t'.holds v) := by
  cases t with
  | natural =>
    obtain rfl := List.mem_singleton.mp h
    refine .ok fun hv => ?_
    obtain ⟨q, hq, hnatural⟩ := (Option.any_eq_true _ _).mp hv
    exact (Option.any_eq_true _ _).mpr ⟨q, hq, (Bool.and_eq_true_iff.mp hnatural).1⟩
  | whole =>
    obtain rfl := List.mem_singleton.mp h
    refine .ok fun hv => ?_
    obtain ⟨q, hq, hwhole⟩ := (Option.any_eq_true _ _).mp hv
    exact (Option.any_eq_true _ _).mpr ⟨q, hq, Quantity.isFinite_of_isWhole hwhole⟩
  | finite =>
    obtain rfl := List.mem_singleton.mp h
    refine .ok fun hv => ?_
    obtain ⟨q, hq, -⟩ := (Option.any_eq_true _ _).mp hv
    rw [hq]
    rfl
  | number | real =>
    obtain rfl := List.mem_singleton.mp h
    exact .refl _
  | array =>
    obtain rfl := List.mem_singleton.mp h
    exact .ok isObject_of_listItems
  | plainObject =>
    obtain rfl := List.mem_singleton.mp h
    exact .ok isObject_of_entries
  | date =>
    obtain rfl := List.mem_singleton.mp h
    exact .ok fun hv => isObject_of_class (.inl hv)
  | regexp =>
    obtain rfl := List.mem_singleton.mp h
    exact .ok fun hv => isObject_of_class (.inr (.inl hv))
  | element =>
    obtain rfl := List.mem_singleton.mp h
    exact .ok fun hv => isObject_of_class (.inr (.inr hv))
  | _ => cases h

theorem NamedType.Within.holds {t t' : NamedType} (h : Within t t') (v : Value) :
    Implied (t.holds v) (t'.holds v) := by
  induction h with
  | refl => exact .refl _
  | tail _ hstep ih => exact ih.trans (holds_above hstep v)

theorem isOfType_name {name : Value} {t : NamedType} (h : name.text? = some t.name) (v : Value) :
    v.isOfType name = t.holds v := by
  rw [isOfType, h]
  simp only [isOfTypeNamed, NamedType.ofName?_name]

/-! ### Specs that ask for less -/

/-- The second spec asks for no more than the first. A flag may become true. -/
inductive SpecRelaxes : Value → Value → Prop where
  /-- The constraint is the same. -/
  | same {c : Value} {b b' : Bool} (hflag : b = true → b' = true) :
      SpecRelaxes (.fieldSpec c (ofBool b)) (.fieldSpec c (ofBool b'))
  /-- The named type lies within the one that is asked for now. -/
  | name {name name' : Value} {t t' : NamedType} {b b' : Bool} (hname : name.text? = some t.name)
      (hname' : name'.text? = some t'.name) (ht : t.Within t') (hflag : b = true → b' = true) :
      SpecRelaxes (.fieldSpec (.typeName name) (ofBool b)) (.fieldSpec (.typeName name') (ofBool b'))
  /-- Of the nested fields some are left, and these are relaxed. -/
  | nested {fields fields' : Entries} {b b' : Bool} (hne : fields' ≠ [])
      (hkept : ∀ f' ∈ fields', ∃ f ∈ fields, f.1.key = f'.1.key)
      (hspecs : ∀ f ∈ fields, ∀ f' ∈ fields', f.1.key = f'.1.key → SpecRelaxes f.2 f'.2)
      (hflag : b = true → b' = true) :
      SpecRelaxes (.fieldSpec (.nested fields) (ofBool b)) (.fieldSpec (.nested fields') (ofBool b'))
  /-- Any mapping, or any object, in place of nested fields. -/
  | object {fields : Entries} {name' : Value} {t' : NamedType} {b b' : Bool}
      (hname' : name'.text? = some t'.name) (ht : t' = .plainObject ∨ t' = .object) (hflag : b = true → b' = true) :
      SpecRelaxes (.fieldSpec (.nested fields) (ofBool b)) (.fieldSpec (.typeName name') (ofBool b'))

/-- Some fields are left, at least one, and none of these asks for more than before. -/
structure Entries.Relaxes (fields fields' : Entries) : Prop where
  nonempty : fields' ≠ []
  kept : ∀ f' ∈ fields', ∃ f ∈ fields, f.1.key = f'.1.key
  specs : ∀ f ∈ fields, ∀ f' ∈ fields', f.1.key = f'.1.key → SpecRelaxes f.2 f'.2

/-- The check of a value against a spec ends in a boolean. -/
def Decides (v spec : Value) : Prop := (fieldResult v spec).result = .ok (ofBool (passes v spec))

theorem decides_of_ok {v c w : Value} {b : Bool} (h : (fieldResult v (.fieldSpec c (ofBool b))).result = .ok w) :
    Decides v (.fieldSpec c (ofBool b)) := by
  suffices hw : ∃ ok, w = ofBool ok by
    obtain ⟨ok, rfl⟩ := hw
    rw [Decides, h, passes_of_result h]
  rw [fieldResult, unlessNull] at h
  split at h
  · exact ⟨b, (Except.ok.inj h).symm⟩
  · rw [Traced.result_bind] at h
    obtain ⟨ok, -, hok⟩ := bind_eq_ok.mp h
    exact ⟨ok, (Except.ok.inj hok).symm⟩

theorem Decides.meets {v c : Value} {b : Bool} (h : Decides v (.fieldSpec c (ofBool b))) (hnull : v.isNull = false) :
    ∃ ok, (meets v false c).result = .ok ok := by
  rw [Decides, fieldResult, unlessNull, hnull, if_neg (by decide), Traced.result_bind] at h
  obtain ⟨ok, hok, -⟩ := bind_eq_ok.mp h
  exact ⟨ok, hok⟩

/-- A field is relaxed if its constraint is, and its flag stays true if it was. -/
theorem relaxed_of_meets {v c c' : Value} {b b' : Bool} (hflag : b = true → b' = true)
    (himp : Implied (meets v false c).result (meets v false c').result)
    (h : Decides v (.fieldSpec c (ofBool b))) : Decides v (.fieldSpec c' (ofBool b')) ∧
      (passes v (.fieldSpec c (ofBool b)) = true → passes v (.fieldSpec c' (ofBool b')) = true) := by
  cases hnull : v.isNull with
  | true =>
    have hdecides : (fieldResult v (.fieldSpec c' (ofBool b'))).result = .ok (ofBool b') := by
      rw [fieldResult, unlessNull, if_pos hnull]
      rfl
    rw [passes_null hnull, passes_null hnull]
    exact ⟨decides_of_ok hdecides, hflag⟩
  | false =>
    obtain ⟨ok, hok⟩ := h.meets hnull
    obtain ⟨ok', hok', hpasses⟩ := himp ok hok
    rw [passes_of_meets hok, passes_of_meets hok', hnull]
    exact ⟨decides_of_ok (fieldResult_of_meets hok' b'), hpasses⟩

/-- Where checks of fields end, the check of each field does. -/
theorem decides_of_failingKeys {value : Value → Except Fault Value} {w : Value → Value} :
    ∀ {fields : Entries} {keys : List Value}, (∀ f ∈ fields, value f.1 = .ok (w f.1)) →
      (∀ f ∈ fields, Settled f.2) → (failingKeys value fields).result = .ok keys →
      ∀ f ∈ fields, Decides (w f.1) f.2
  | [], _, _, _, _ => fun f hf => by cases hf
  | (k, x) :: rest, keys, hvalue, hsettled, h => by
    obtain ⟨c, b, hx⟩ := (hsettled (k, x) List.mem_cons_self).isSpec
    have hv := hvalue (k, x) List.mem_cons_self
    simp only at hx hv
    rw [failingKeys] at h
    simp only [Traced.result_bind, Traced.result_lift, hv, ok_bind] at h
    obtain ⟨outcome, houtcome, h⟩ := bind_eq_ok.mp h
    obtain ⟨ok, -, h⟩ := bind_eq_ok.mp h
    obtain ⟨others, hothers, -⟩ := bind_eq_ok.mp h
    intro f hf
    rcases List.mem_cons.mp hf with rfl | hf
    · rw [hx] at houtcome ⊢
      exact decides_of_ok houtcome
    · exact decides_of_failingKeys (fun g hg => hvalue g (List.mem_cons_of_mem _ hg))
        (fun g hg => hsettled g (List.mem_cons_of_mem _ hg)) hothers f hf

theorem held_congr {vs : Entries} {key key' : Value} (h : key.key = key'.key) : held vs key = held vs key' := by
  rw [held, held, valueAt, valueAt, lookup?, lookup?, h]

/-- Where nested fields are met or not, the check of each of them ends. -/
theorem decides_of_nested {v : Value} {vs fields : Entries} {ok : Bool} (hvs : v.entries? = some vs)
    (hkeys : Entries.Keyed fields) (hsettled : ∀ f ∈ fields, Settled f.2)
    (h : (meets v false (.nested fields)).result = .ok ok) : ∀ f ∈ fields, Decides (held vs f.1) f.2 := by
  have hvalue : ∀ f ∈ fields, valueAt vs f.1 = .ok (held vs f.1) := fun f hf =>
    valueAt_eq (hkeys.hashable f.1 (List.mem_map_of_mem hf))
  rw [meets, meetsFields, hvs] at h
  simp only [Traced.result_bind, Traced.result_lift, normalizeEntries_settled hsettled, ok_bind] at h
  split at h
  · rename_i hempty
    intro f hf
    rw [List.isEmpty_iff.mp hempty] at hf
    cases hf
  · rw [Traced.result_bind] at h
    obtain ⟨keys, hfailing, -⟩ := bind_eq_ok.mp h
    exact decides_of_failingKeys hvalue hsettled hfailing

/-- Relaxed fields, on the same mapping: each kept one is decided and passes if it did before. -/
theorem decides_kept {fields fields' vs : Entries} (hfield : ∀ f ∈ fields, Decides (held vs f.1) f.2)
    (hkept : ∀ f' ∈ fields', ∃ f ∈ fields, f.1.key = f'.1.key)
    (hspecs : ∀ f ∈ fields, ∀ f' ∈ fields', f.1.key = f'.1.key → ∀ v, Decides v f.2 →
      Decides v f'.2 ∧ (passes v f.2 = true → passes v f'.2 = true)) :
    ∀ f' ∈ fields', Decides (held vs f'.1) f'.2 ∧
      ∃ f ∈ fields, f.1.key = f'.1.key ∧ (passes (held vs f.1) f.2 = true → passes (held vs f'.1) f'.2 = true) := by
  intro f' hf'
  obtain ⟨f, hf, hkey⟩ := hkept f' hf'
  obtain ⟨hdecides, hpasses⟩ := hspecs f hf f' hf' hkey _ (hfield f hf)
  rw [held_congr hkey] at hdecides
  refine ⟨hdecides, f, hf, hkey, fun h => ?_⟩
  rw [← held_congr hkey]
  exact hpasses h

/-- **A relaxed spec accepts more**: it is decided for each value that the spec before it is
decided for, and passes if that one does. -/
theorem SpecRelaxes.implied {spec spec' : Value} (h : SpecRelaxes spec spec') : Settled spec → Settled spec' →
    ∀ v, Decides v spec → Decides v spec' ∧ (passes v spec = true → passes v spec' = true) := by
  induction h with
  | same hflag => exact fun _ _ v => relaxed_of_meets hflag (.refl _)
  | name hname hname' ht hflag =>
    refine fun _ _ v => relaxed_of_meets hflag ?_
    rw [meets_typeName, meets_typeName, isOfType_name hname, isOfType_name hname']
    exact ht.holds v
  | @object fields name' t' b b' hname' ht hflag =>
    refine fun _ _ v => relaxed_of_meets hflag fun ok hok => ?_
    rw [meets_typeName, isOfType_name hname']
    have hentries : ok = true → v.entries?.isSome = true := by
      rintro rfl
      rw [Option.isSome_iff_ne_none]
      intro hnone
      rw [meets_nested_none hnone] at hok
      cases hok
    rcases ht with rfl | rfl
    · exact ⟨_, rfl, hentries⟩
    · exact ⟨_, rfl, isObject_of_entries ∘ hentries⟩
  | @nested fields fields' b b' hne hkept _ hflag ih =>
    intro hs hs' v
    cases hs with
    | nested hkeys hsettled =>
    cases hs' with
    | nested hkeys' hsettled' =>
    refine relaxed_of_meets hflag fun ok hok => ?_
    cases hvs : v.entries? with
    | none =>
      rw [meets_nested_none hvs] at hok ⊢
      obtain rfl := Except.ok.inj hok
      exact ⟨false, rfl, id⟩
    | some vs =>
      have hfield := decides_of_nested hvs hkeys hsettled hok
      have hkept' := decides_kept hfield hkept fun f hf f' hf' hkey =>
        ih f hf f' hf' hkey (hsettled f hf) (hsettled' f' hf')
      rw [meets_nested hvs hkeys hsettled hfield] at hok
      rw [meets_nested hvs hkeys' hsettled' fun f' hf' => (hkept' f' hf').1]
      refine ⟨_, rfl, fun hpass => ?_⟩
      rw [← Except.ok.inj hok, Bool.and_eq_true_iff, List.all_eq_true] at hpass
      rw [Bool.and_eq_true_iff, List.all_eq_true]
      refine ⟨by simpa using hne, fun f' hf' => ?_⟩
      obtain ⟨-, f, hf, -, hpasses⟩ := hkept' f' hf'
      exact hpasses (hpass.2 f hf)

/-! ### Validating by name -/

/-- Where a validation by name ends, the check of each field does. -/
theorem decides_of_validateNamed {s v : Value} {vs fields : Entries} {o : Outcome} (hn : s.toFields = .ok fields)
    (hkeys : Entries.Keyed fields) (hsettled : ∀ f ∈ fields, Settled f.2) (hne : fields ≠ [])
    (hvs : v.entries? = some vs) (h : (validateNamed v s).result = .ok o) :
    ∀ f ∈ fields, Decides (held vs f.1) f.2 := by
  have hvalue : ∀ f ∈ fields, valueAt vs f.1 = .ok (held vs f.1) := fun f hf =>
    valueAt_eq (hkeys.hashable f.1 (List.mem_map_of_mem hf))
  rw [validateNamed_some hvs hn, if_neg (by simpa using hne), checkFields_result] at h
  obtain ⟨keys, hfailing, -⟩ := bind_eq_ok.mp h
  exact decides_of_failingKeys hvalue hsettled hfailing

/-- **Relaxing a schema never rejects more.** Where a mapping is validated against the fields of
a plain schema, as measured ones are, it is validated against relaxed fields too. Each key that
fails then failed before, so what was valid is valid still. -/
theorem validateNamed_relaxed {s s' v : Value} {vs fields fields' : Entries} (hs : Plain s) (hs' : Plain s')
    (hn : s.toFields = .ok fields) (hn' : s'.toFields = .ok fields') (hrelaxes : Entries.Relaxes fields fields')
    (hvs : v.entries? = some vs) :
    (Measured v → ∃ o, (validateNamed v (ofEntries fields)).result = .ok o) ∧
    ∀ o, (validateNamed v (ofEntries fields)).result = .ok o →
      ∃ o', (validateNamed v (ofEntries fields')).result = .ok o' ∧ o.structural = false ∧ o'.structural = false ∧
        (∀ k' ∈ o'.failedKeys, ∃ k ∈ o.failedKeys, k.key = k'.key ∧ (k' ∈ fields.map Prod.fst → k = k')) ∧
        (o.isValid = true → o'.isValid = true) := by
  obtain ⟨hkeys, hsettled⟩ := hs.settled_fields hn
  obtain ⟨hkeys', hsettled'⟩ := hs'.settled_fields hn'
  obtain ⟨hne', hkept, hspecs⟩ := hrelaxes
  have hne : fields ≠ [] := by
    obtain ⟨f', hf'⟩ := List.exists_mem_of_ne_nil fields' hne'
    obtain ⟨f, hf, -⟩ := hkept f' hf'
    exact List.ne_nil_of_mem hf
  have hfields : (ofEntries fields).toFields = .ok fields :=
    normalizeEntries_idem (hs.toFields_eq.symm.trans hn)
  have hfields' : (ofEntries fields').toFields = .ok fields' :=
    normalizeEntries_idem (hs'.toFields_eq.symm.trans hn')
  refine ⟨fun hmv => ⟨_, validateNamed_result hfields hkeys hsettled hne hmv hvs⟩, fun o ho => ?_⟩
  have hfield := decides_of_validateNamed hfields hkeys hsettled hne hvs ho
  have hkept' := decides_kept hfield hkept fun f hf f' hf' hkey =>
    (hspecs f hf f' hf' hkey).implied (hsettled f hf) (hsettled' f' hf')
  have hresult' := validateNamed_decided hfields' hkeys' hne' hvs fun f' hf' => (hkept' f' hf').1
  rw [validateNamed_decided hfields hkeys hne hvs hfield] at ho
  obtain rfl := Except.ok.inj ho
  have hfailed : ∀ k' ∈ (fields'.filter fun f => !passes (held vs f.1) f.2).map Prod.fst,
      ∃ k ∈ (fields.filter fun f => !passes (held vs f.1) f.2).map Prod.fst,
        k.key = k'.key ∧ (k' ∈ fields.map Prod.fst → k = k') := by
    intro k' hk'
    obtain ⟨f', hf', rfl⟩ := List.mem_map.mp hk'
    obtain ⟨hf', hfails⟩ := List.mem_filter.mp hf'
    obtain ⟨-, f, hf, hkey, hpasses⟩ := hkept' f' hf'
    have hfails' : (!passes (held vs f.1) f.2) = true := by
      rw [Bool.not_eq_true'] at hfails ⊢
      exact Bool.eq_false_iff.mpr fun h => by rw [hpasses h] at hfails; cases hfails
    refine ⟨f.1, List.mem_map_of_mem (List.mem_filter.mpr ⟨hf, hfails'⟩), hkey, fun hmem => ?_⟩
    obtain ⟨g, hg, hgkey⟩ := List.mem_map.mp hmem
    rw [hkeys.eq_of_key hf hg (hkey.trans (by rw [hgkey])), hgkey]
  refine ⟨_, hresult', rfl, rfl, hfailed, fun hvalid => ?_⟩
  rw [Outcome.isValid, List.isEmpty_iff, List.eq_nil_iff_forall_not_mem] at hvalid ⊢
  intro k' hk'
  obtain ⟨k, hk, -⟩ := hfailed k' hk'
  exact hvalid k hk

/-- A user with a negative age and no tags: any number may be the age now, and the name is not
asked for, so only the tags still fail. -/
theorem validateNamed_relaxed_age :
    ∃ fields fields' o o', (ofEntries [(ofText "user", ofEntries [(ofText "age", ofText "natural"),
          (ofText "name", ofText "string")]), (ofText "tags", ofText "array")]).toFields = .ok fields ∧
      (ofEntries [(ofText "user", ofEntries [(ofText "age", ofText "number")]),
        (ofText "tags", ofText "object")]).toFields = .ok fields' ∧ Entries.Relaxes fields fields' ∧
      (validateNamed (ofEntries [(ofText "user", ofEntries [(ofText "age", ofInt (-1))])])
        (ofEntries fields)).result = .ok o ∧
      (validateNamed (ofEntries [(ofText "user", ofEntries [(ofText "age", ofInt (-1))])])
        (ofEntries fields')).result = .ok o' ∧
      o.failedKeys = [ofText "user", ofText "tags"] ∧ o'.failedKeys = [ofText "tags"] ∧
      ∀ k' ∈ o'.failedKeys, ∃ k ∈ o.failedKeys, k.key = k'.key := by
  have hs : Plain (ofEntries [(ofText "user", ofEntries [(ofText "age", ofText "natural"),
      (ofText "name", ofText "string")]), (ofText "tags", ofText "array")]) := by
    refine plain_named ["user", "tags"] rfl (by decide) fun e he => ?_
    rcases List.mem_pair.mp he with rfl | rfl
    · refine plain_named ["age", "name"] rfl (by decide) fun e he => ?_
      rcases List.mem_pair.mp he with rfl | rfl <;> exact .atom _
    · exact .atom _
  have hs' : Plain (ofEntries [(ofText "user", ofEntries [(ofText "age", ofText "number")]),
      (ofText "tags", ofText "object")]) := by
    refine plain_named ["user", "tags"] rfl (by decide) fun e he => ?_
    rcases List.mem_pair.mp he with rfl | rfl
    · exact plain_named ["age"] rfl (by decide) (List.forall_mem_singleton.mpr (.atom _))
    · exact .atom _
  have hwithin : NamedType.natural.Within .number :=
    .tail (.tail (.tail .refl List.mem_cons_self) List.mem_cons_self) List.mem_cons_self
  have htags : NamedType.array.Within .object := .tail .refl List.mem_cons_self
  have hage : SpecRelaxes
      (.fieldSpec (.nested [(ofText "age", .fieldSpec (.typeName (ofText "natural")) (ofBool false)),
        (ofText "name", .fieldSpec (.typeName (ofText "string")) (ofBool false))]) (ofBool false))
      (.fieldSpec (.nested [(ofText "age", .fieldSpec (.typeName (ofText "number")) (ofBool false))])
        (ofBool false)) := by
    refine .nested (by simp) (fun f' hf' => ?_) (fun f hf f' hf' hkey => ?_) id
    · obtain rfl := List.mem_singleton.mp hf'
      exact ⟨_, List.mem_cons_self, rfl⟩
    · obtain rfl := List.mem_singleton.mp hf'
      rcases List.mem_pair.mp hf with rfl | rfl
      · exact .name rfl rfl hwithin id
      · simp [key_ofText] at hkey
  have hrelaxes : Entries.Relaxes
      [(ofText "user", .fieldSpec (.nested [(ofText "age", .fieldSpec (.typeName (ofText "natural")) (ofBool false)),
          (ofText "name", .fieldSpec (.typeName (ofText "string")) (ofBool false))]) (ofBool false)),
        (ofText "tags", .fieldSpec (.typeName (ofText "array")) (ofBool false))]
      [(ofText "user", .fieldSpec (.nested [(ofText "age", .fieldSpec (.typeName (ofText "number")) (ofBool false))])
          (ofBool false)),
        (ofText "tags", .fieldSpec (.typeName (ofText "object")) (ofBool false))] := by
    refine ⟨by simp, fun f' hf' => ?_, fun f hf f' hf' hkey => ?_⟩
    · rcases List.mem_pair.mp hf' with rfl | rfl
      · exact ⟨_, List.mem_cons_self, rfl⟩
      · exact ⟨_, List.mem_cons_of_mem _ List.mem_cons_self, rfl⟩
    · rcases List.mem_pair.mp hf with rfl | rfl <;> rcases List.mem_pair.mp hf' with rfl | rfl
      · exact hage
      · simp [key_ofText] at hkey
      · simp [key_ofText] at hkey
      · exact .name rfl rfl htags id
  obtain ⟨-, hrejects⟩ := validateNamed_relaxed
    (v := ofEntries [(ofText "user", ofEntries [(ofText "age", ofInt (-1))])])
    hs hs' rfl rfl hrelaxes rfl
  obtain ⟨o', ho', -, -, hkeys, -⟩ := hrejects _ rfl
  have hfailed : o'.failedKeys = [ofText "tags"] := by
    obtain rfl := Except.ok.inj ho'
    rfl
  refine ⟨_, _, _, o', rfl, rfl, hrelaxes, rfl, ho', rfl, hfailed, fun k' hk' => ?_⟩
  obtain ⟨k, hk, hkey, -⟩ := hkeys k' hk'
  exact ⟨k, hk, hkey⟩

end ArgSchema
