/-
# Failing paths

What makes a mapping fail a schema, read off the schema as its author wrote it: a path of
keys, each declared by the type that the entry before it asks for, down to an entry whose
value is missing although it is needed, or is not what its type asks for. Validating by
name reports, in the order of declaration, the keys at which such a path starts
(`validateNamed_failingPath`).

The checker sees the schema only after it is normalized. That a type and its constraint
reject the same values (`Plain.agrees`) goes by induction on the plain type: an entry and
its spec agree if the type and the constraint do (`passes_field`), and then fields fail
just where paths start (`failing_iff_path`).

Key definitions: `Value.Mismatch`, `FailingPath`, `Agrees`.
-/
import ArgSchema.Proofs.Checking

namespace ArgSchema

open Value

/-- An entry may be left out if its flag is true. -/
def Value.IsOptional (x : Value) : Prop := x.flag = .ok true

/-- A value, which is not null, fails a type by itself, whatever nested fields may say. -/
inductive Value.Mismatch : Value → Value → Prop where
  /-- It is not of the type that is named; a name that is not known is never met. -/
  | name {t v : Value} {s : String} (ht : t.text? = some s) (h : v.isOfTypeNamed s = .ok false) : Mismatch t v
  /-- It does not belong to the class. -/
  | cls {t v : Value} {c : Class} (ht : t.class? = some c) (h : v.isA c = false) : Mismatch t v
  /-- Fields are asked for, and it is no mapping. -/
  | notMapping {t v : Value} {inner : Entries} (ht : t.nestedEntries? = some inner)
      (hv : v.entries? = none) : Mismatch t v
  /-- Fields are asked for, but none is declared. -/
  | noFields {t v : Value} (ht : t.nestedEntries? = some []) : Mismatch t v
  /-- The type is none that is understood. -/
  | unknown {t v : Value} (htext : t.text? = none) (hclass : t.class? = none)
      (hnested : t.nestedEntries? = none) : Mismatch t v

/-- A path of keys through entries `es` and a mapping `vs` that ends in a failure. -/
inductive FailingPath : Entries → Entries → List Value → Prop where
  /-- The value is missing, and the entry is not optional. -/
  | missing {es vs : Entries} {k x v : Value} (hx : (k, x) ∈ es) (hv : valueAt vs k = .ok v)
      (hnull : v.isNull = true) (hflag : ¬ x.IsOptional) : FailingPath es vs [k]
  /-- The value is there and fails the type of the entry. -/
  | mismatch {es vs : Entries} {k x v : Value} (hx : (k, x) ∈ es) (hv : valueAt vs k = .ok v)
      (hnull : v.isNull = false) (h : Mismatch x.askedType v) : FailingPath es vs [k]
  /-- The value is a mapping, and a failing path leads on through what the type declares. -/
  | inside {es vs inner ws : Entries} {k x v : Value} {ks : List Value} (hx : (k, x) ∈ es)
      (hv : valueAt vs k = .ok v) (hmap : v.entries? = some ws)
      (ht : x.askedType.nestedEntries? = some inner) (h : FailingPath inner ws ks) :
      FailingPath es vs (k :: ks)

/-! ### One step of a path -/

/-- A value misses a type: by itself, or because a failing path starts inside. -/
def Misses (t v : Value) : Prop :=
  Mismatch t v ∨ ∃ inner ws ks, t.nestedEntries? = some inner ∧ v.entries? = some ws ∧ FailingPath inner ws ks

/-- A value fails an entry. -/
def Fails (x v : Value) : Prop :=
  (v.isNull = true ∧ ¬ x.IsOptional) ∨ (v.isNull = false ∧ Misses x.askedType v)

theorem not_null_of_entries {v : Value} {ws : Entries} (h : v.entries? = some ws) : v.isNull = false := by
  cases v with
  | mapping => rfl
  | _ => simp [entries?] at h

/-- A failing path starts at a key if the value under it fails its entry. -/
theorem failingPath_cons_iff {es vs : Entries} {k : Value} :
    (∃ ks, FailingPath es vs (k :: ks)) ↔ ∃ x v, (k, x) ∈ es ∧ valueAt vs k = .ok v ∧ Fails x v := by
  constructor
  · rintro ⟨ks, h⟩
    cases h with
    | missing hx hv hnull hflag => exact ⟨_, _, hx, hv, .inl ⟨hnull, hflag⟩⟩
    | mismatch hx hv hnull h => exact ⟨_, _, hx, hv, .inr ⟨hnull, .inl h⟩⟩
    | inside hx hv hmap ht h =>
      exact ⟨_, _, hx, hv, .inr ⟨not_null_of_entries hmap, .inr ⟨_, _, _, ht, hmap, h⟩⟩⟩
  · rintro ⟨x, v, hx, hv, ⟨hnull, hflag⟩ | ⟨hnull, h | ⟨inner, ws, ks, ht, hmap, h⟩⟩⟩
    · exact ⟨[], .missing hx hv hnull hflag⟩
    · exact ⟨[], .mismatch hx hv hnull h⟩
    · exact ⟨ks, .inside hx hv hmap ht h⟩

theorem FailingPath.exists_key {es vs : Entries} {path : List Value} (h : FailingPath es vs path) :
    ∃ k ks, path = k :: ks ∧ k ∈ es.map Prod.fst := by
  cases h with
  | missing hx => exact ⟨_, _, rfl, List.mem_map_of_mem hx⟩
  | mismatch hx => exact ⟨_, _, rfl, List.mem_map_of_mem hx⟩
  | inside hx => exact ⟨_, _, rfl, List.mem_map_of_mem hx⟩

/-! ### A type by its kind

A type is a name, a class, a type with entries, or unknown, and never two of these. -/

theorem text?_some {t : Value} {s : String} (h : t.text? = some s) : t.class? = none ∧ t.nestedEntries? = none := by
  cases t with
  | atom a => cases a <;> simp_all [text?, class?, nestedEntries?]
  | _ => simp [text?] at h

theorem text?_eq_some {v : Value} {s : String} (h : v.text? = some s) : ∃ kind, v = .atom (.text kind s) := by
  cases v with
  | atom a =>
    cases a with
    | text kind s' => cases kind <;> simp_all [text?]
    | _ => cases h
  | _ => cases h

theorem class?_some {t : Value} {c : Class} (h : t.class? = some c) : t = .atom (.cls c) := by
  cases t with
  | atom a => cases a <;> simp_all [class?]
  | _ => simp [class?] at h

theorem nestedEntries?_some {t : Value} {inner : Entries} (h : t.nestedEntries? = some inner) :
    t.text? = none ∧ t.class? = none := by
  cases t with
  | mapping | schema => exact ⟨rfl, rfl⟩
  | _ => simp [nestedEntries?] at h

theorem mismatch_name_iff {t v : Value} {s : String} (ht : t.text? = some s) :
    Mismatch t v ↔ v.isOfTypeNamed s = .ok false := by
  obtain ⟨hclass, hnested⟩ := text?_some ht
  constructor
  · intro hm
    cases hm with
    | name ht' h =>
      obtain rfl : s = _ := Option.some.inj (ht.symm.trans ht')
      exact h
    | cls hc _ => simp [hclass] at hc
    | notMapping hn _ => simp [hnested] at hn
    | noFields hn => simp [hnested] at hn
    | unknown htext _ _ => simp [ht] at htext
  · exact .name ht

theorem mismatch_class_iff {v : Value} {c : Class} : Mismatch (.atom (.cls c)) v ↔ v.isA c = false := by
  constructor
  · intro hm
    cases hm with
    | cls hc h =>
      obtain rfl : c = _ := by simpa [class?] using hc
      exact h
    | name ht _ => simp [text?] at ht
    | notMapping hn _ => simp [nestedEntries?] at hn
    | noFields hn => simp [nestedEntries?] at hn
    | unknown _ hclass _ => simp [class?] at hclass
  · exact .cls rfl

theorem mismatch_nested_iff {t v : Value} {inner : Entries} (h : t.nestedEntries? = some inner) :
    Mismatch t v ↔ v.entries? = none ∨ inner = [] := by
  obtain ⟨htext, hclass⟩ := nestedEntries?_some h
  constructor
  · intro hm
    cases hm with
    | notMapping _ hv => exact .inl hv
    | noFields hn => exact .inr (by simpa [h] using hn)
    | name ht _ => simp [htext] at ht
    | cls hc _ => simp [hclass] at hc
    | unknown _ _ hn => simp [h] at hn
  · rintro (hv | rfl)
    · exact .notMapping h hv
    · exact .noFields h

theorem leafConstraint_name {t : Value} {s : String} (h : t.text? = some s) : t.leafConstraint = .typeName t := by
  cases t with
  | atom a =>
    cases a with
    | text kind s => cases kind <;> simp_all [text?, leafConstraint]
    | _ => simp [text?] at h
  | _ => simp [text?] at h

theorem Plain.leafConstraint_unknown {t : Value} (ht : Plain t) (htext : t.text? = none) (hclass : t.class? = none) :
    t.leafConstraint = .unsatisfiable t := by
  cases ht with
  | atom a =>
    cases a with
    | text kind s => cases kind <;> simp_all [text?, leafConstraint]
    | cls c => simp [class?] at hclass
    | _ => rfl
  | _ => rfl

/-! ### An entry and its spec -/

theorem misses_leaf {t v : Value} (h : t.nestedEntries? = none) : Misses t v ↔ Mismatch t v := by
  constructor
  · rintro (hm | ⟨inner, -, -, ht, -⟩)
    · exact hm
    · rw [h] at ht
      simp at ht
  · exact .inl

/-- A type without entries is met as its constraint is. -/
theorem meets_leaf {t v : Value} (ht : Plain t) (h : t.nestedEntries? = none) (hv : Measured v) :
    ∃ b, (meets v false t.leafConstraint).result = .ok b ∧ (b = false ↔ Mismatch t v) := by
  cases htext : t.text? with
  | some s =>
    obtain ⟨b, hb⟩ := hv.isOfType t
    refine ⟨b, by rw [leafConstraint_name htext, meets_typeName, hb], ?_⟩
    have hnamed : v.isOfTypeNamed s = .ok b := by rw [← hb, isOfType, htext]
    rw [mismatch_name_iff htext, hnamed, Except.ok.injEq]
  | none =>
    cases hclass : t.class? with
    | some c =>
      obtain rfl := class?_some hclass
      exact ⟨v.isA c, meets_instanceOf v c false, mismatch_class_iff.symm⟩
    | none =>
      refine ⟨false, by rw [ht.leafConstraint_unknown htext hclass, meets_unsatisfiable], ?_⟩
      exact iff_of_true rfl (.unknown htext hclass h)

/-- The constraint of a type rejects just the values that miss the type. -/
def Agrees (t : Value) : Prop :=
  ∀ c, t.toConstraint = .ok c → ∀ v, Measured v → v.isNull = false →
    ∀ b, (passes v (.fieldSpec c (ofBool b)) = false ↔ Misses t v)

theorem agrees_leaf {t : Value} (ht : Plain t) (h : t.nestedEntries? = none) : Agrees t := by
  intro c hc v hv hnull b
  rw [toConstraint_leaf h] at hc
  obtain rfl : _ = c := by simpa using hc
  obtain ⟨ok, hok, hm⟩ := meets_leaf ht h hv
  rw [passes_of_meets hok b, hnull, misses_leaf h, ← hm]
  simp

/-- The spec of an entry rejects just the values that fail the entry. -/
theorem passes_field {x spec v : Value} (hx : Plain x) (hspec : x.toField = .ok spec)
    (hagrees : Agrees x.askedType) (hv : Measured v) : passes v spec = false ↔ Fails x v := by
  obtain ⟨c, b, hc, hb, rfl⟩ := (toField_eq_ok hx.not_fieldSpec).mp hspec
  unfold Fails IsOptional
  rw [hb]
  cases hnull : v.isNull with
  | true =>
    rw [passes_null hnull]
    simp
  | false =>
    rw [hagrees c hc v hv hnull b]
    simp

/-- A field does not pass if and only if a failing path starts at its key. -/
theorem failing_iff_path {es fields vs : Entries} (hkeys : Entries.Keyed es) (hplain : ∀ e ∈ es, Plain e.2)
    (hagrees : ∀ e ∈ es, Agrees e.2.askedType) (hvs : ∀ k, Measured (held vs k))
    (hn : normalizeEntries es = .ok fields) :
    ∀ f ∈ fields, passes (held vs f.1) f.2 = false ↔ ∃ ks, FailingPath es vs (f.1 :: ks) := by
  intro f hf
  obtain ⟨⟨k, x⟩, he, hk, hspec⟩ := mem_normalizeEntries hn f hf
  rw [hk, passes_field (hplain _ he) hspec (hagrees _ he) (hvs k), failingPath_cons_iff]
  have hval : valueAt vs k = .ok (held vs k) := valueAt_eq (hkeys.hashable k (List.mem_map_of_mem he))
  constructor
  · exact fun h => ⟨x, held vs k, he, hval, h⟩
  · rintro ⟨y, v, hy, hv, h⟩
    obtain ⟨-, rfl⟩ := Prod.mk.inj (hkeys.eq_of_key he hy rfl)
    obtain rfl : held vs k = v := by simpa [hval] using hv
    exact h

theorem agrees_nested {t : Value} {inner : Entries} (ht : Plain t) (h : t.nestedEntries? = some inner)
    (ih : ∀ e ∈ inner, Agrees e.2.askedType) : Agrees t := by
  intro c hc v hv hnull b
  rw [ht.toConstraint_nested h] at hc
  obtain ⟨fields, hn, hc⟩ := bind_eq_ok.mp hc
  obtain rfl : _ = c := by simpa using hc
  obtain rfl := nestedEntries?_eq_declared h
  cases hvs : v.entries? with
  | none =>
    rw [passes_of_meets (meets_nested_none hvs fields) b, hnull]
    simpa [Misses] using Or.inl (Mismatch.notMapping h hvs)
  | some ws =>
    obtain ⟨hkeys, hsettled⟩ := ht.settled_fields (ht.toFields_eq.trans hn)
    have hmeets := meets_nested hvs hkeys hsettled fun f hf =>
      (hsettled f hf).result (hv.held hvs f.1)
    have hpath := failing_iff_path ht.keyed ht.declared ih (hv.held hvs) hn
    rw [passes_of_meets hmeets b, hnull]
    simp only [Bool.false_eq_true, ↓reduceIte, Bool.and_eq_false_iff, Bool.not_eq_false', List.isEmpty_iff,
      List.all_eq_false]
    -- fields and entries have the same keys: there are none of both or of neither
    have hempty : fields = [] ↔ t.declared = [] := normalizeEntries_eq_nil hn
    constructor
    · rintro (hnil | ⟨f, hf, hfail⟩)
      · exact .inl (.noFields (by rw [h, hempty.mp hnil]))
      · obtain ⟨ks, hks⟩ := (hpath f hf).mp (by simpa using hfail)
        exact .inr ⟨_, ws, _, h, hvs, hks⟩
    · rintro (hm | ⟨inner, ws', ks, ht', hws, hks⟩)
      · rcases (mismatch_nested_iff h).mp hm with hv' | hnil
        · simp [hvs] at hv'
        · exact .inl (hempty.mpr hnil)
      · obtain rfl : t.declared = inner := by simpa [h] using ht'
        obtain rfl : ws = ws' := by simpa [hvs] using hws
        obtain ⟨k, rest, rfl, hk⟩ := hks.exists_key
        rw [← keys_normalizeEntries hn] at hk
        obtain ⟨f, hf, rfl⟩ := List.mem_map.mp hk
        exact .inr ⟨f, hf, by simpa using (hpath f hf).mpr ⟨rest, hks⟩⟩

/-- **Normalizing keeps the meaning of a type.** -/
theorem Plain.agrees {t : Value} (ht : Plain t) : Agrees t :=
  Plain.induction (fun _ ht h => agrees_leaf ht h) (fun _ _ ht h ih => agrees_nested ht h ih) ht

/-! ### Validating by name -/

theorem declared_of_entries {s : Value} {es : Entries} (h : s.entries? = some es) : s.declared = es := by
  cases s with
  | mapping kind id entries => simpa [entries?, Value.declared] using h
  | _ => simp [entries?] at h

theorem toFields_of_entries {s : Value} {es : Entries} (h : s.entries? = some es) :
    s.toFields = normalizeEntries es := by
  cases s with
  | mapping kind id entries =>
    obtain rfl : entries = es := Option.some.inj h
    rw [toFields]
  | _ => simp [entries?] at h

/-- Validating a mapping against fields reports the keys of those that do not pass; the outcome
of each field is given. -/
theorem validateNamed_decided {s v : Value} {vs fields : Entries} (hn : s.toFields = .ok fields)
    (hkeys : Entries.Keyed fields) (hne : fields ≠ []) (hvs : v.entries? = some vs)
    (hfield : ∀ f ∈ fields, (fieldResult (held vs f.1) f.2).result = .ok (ofBool (passes (held vs f.1) f.2))) :
    (validateNamed v s).result =
      .ok ⟨(fields.filter fun f => !passes (held vs f.1) f.2).map Prod.fst, v, fields, false⟩ := by
  have hvalue : ∀ f ∈ fields, valueAt vs f.1 = .ok (held vs f.1) := fun f hf =>
    valueAt_eq (hkeys.hashable f.1 (List.mem_map_of_mem hf))
  have hfailing := failingKeys_result hvalue hfield
  have hempty : fields.isEmpty = false := by simpa using hne
  unfold validateNamed
  simp only [hvs, Traced.result_bind, Traced.result_lift, hn, ok_bind, hempty, Bool.false_eq_true, ↓reduceIte,
    checkFields_result, hfailing]

theorem validateNamed_result {s v : Value} {vs fields : Entries} (hn : s.toFields = .ok fields)
    (hkeys : Entries.Keyed fields) (hsettled : ∀ f ∈ fields, Settled f.2) (hne : fields ≠ [])
    (hmv : Measured v) (hvs : v.entries? = some vs) :
    (validateNamed v s).result =
      .ok ⟨(fields.filter fun f => !passes (held vs f.1) f.2).map Prod.fst, v, fields, false⟩ :=
  validateNamed_decided hn hkeys hne hvs fun f hf => (hsettled f hf).result (hmv.held hvs f.1)

open Classical in
/-- **Validating a mapping by name reports where failing paths start**: the keys that are
declared, in their order and each once, from which a failing path leads. -/
theorem validateNamed_failingPath {s v : Value} {es vs : Entries} (hs : Plain s) (hms : Measured s)
    (hmv : Measured v) (hes : s.entries? = some es) (hne : es ≠ []) (hvs : v.entries? = some vs) :
    ∃ o, (validateNamed v s).result = .ok o ∧ o.structural = false ∧
      o.failedKeys = (es.map Prod.fst).filter (fun k => ∃ path, FailingPath es vs (k :: path)) ∧
      o.failedKeys.Pairwise (fun k k' => k.key ≠ k'.key) ∧
      (o.isValid = true ↔ ¬ ∃ path, FailingPath es vs path) := by
  obtain ⟨fields, hn⟩ := hms.toFields_total
  obtain ⟨hkeys, hsettled⟩ := hs.settled_fields hn
  have hdeclared := declared_of_entries hes
  have hn' : normalizeEntries es = .ok fields := by rw [← hdeclared, ← hs.toFields_eq, hn]
  have hfst := keys_normalizeEntries hn'
  have hk : Entries.Keyed es := hdeclared ▸ hs.keyed
  have hplain : ∀ e ∈ es, Plain e.2 := hdeclared ▸ hs.declared
  have hpath := failing_iff_path hk hplain (fun e he => (hplain e he).askedType.agrees) (hmv.held hvs) hn'
  have hne' : fields ≠ [] := by
    rw [ne_eq, ← List.map_eq_nil_iff (f := Prod.fst), hfst, List.map_eq_nil_iff]
    exact hne
  have hkeysOut : (fields.filter fun f => !passes (held vs f.1) f.2).map Prod.fst =
      (es.map Prod.fst).filter (fun k => ∃ path, FailingPath es vs (k :: path)) := by
    rw [← hfst, List.filter_map]
    congr 1
    refine List.filter_congr fun f hf => ?_
    rw [Bool.eq_iff_iff, Bool.not_eq_true', hpath f hf]
    simp
  refine ⟨_, validateNamed_result hn hkeys hsettled hne' hmv hvs, rfl, hkeysOut, ?_, ?_⟩
  · rw [hkeysOut]
    exact hk.distinct.sublist List.filter_sublist
  · rw [Outcome.isValid, hkeysOut, List.isEmpty_iff, List.filter_eq_nil_iff]
    constructor
    · rintro h ⟨path, hp⟩
      obtain ⟨k, rest, rfl, hk⟩ := hp.exists_key
      exact h k hk (by simpa using ⟨rest, hp⟩)
    · intro h k _ hp
      obtain ⟨path, hp⟩ := by simpa using hp
      exact h ⟨_, hp⟩

/-- A user with a negative age: the path leads through the user to the age, and the user fails. -/
theorem validateNamed_failingPath_age :
    ∃ o, (validateNamed (ofEntries [(ofText "user", ofEntries [(ofText "age", ofInt (-1))])])
        (ofEntries [(ofText "user", ofEntries [(ofText "age", ofText "natural")])])).result = .ok o ∧
      o.failedKeys = [ofText "user"] ∧ o.isValid = false := by
  have hinner : Plain (ofEntries [(ofText "age", ofText "natural")]) :=
    plain_named ["age"] rfl (by decide) (List.forall_mem_singleton.mpr (.atom _))
  have hs : Plain (ofEntries [(ofText "user", ofEntries [(ofText "age", ofText "natural")])]) :=
    plain_named ["user"] rfl (by decide) (List.forall_mem_singleton.mpr hinner)
  have hms : Measured (ofEntries [(ofText "user", ofEntries [(ofText "age", ofText "natural")])]) :=
    measured_named ["user"] rfl (List.forall_mem_singleton.mpr
      (measured_named ["age"] rfl (List.forall_mem_singleton.mpr (measured_atom ⟨_, rfl⟩))))
  have hmv : Measured (ofEntries [(ofText "user", ofEntries [(ofText "age", ofInt (-1))])]) :=
    measured_named ["user"] rfl (List.forall_mem_singleton.mpr
      (measured_named ["age"] rfl (List.forall_mem_singleton.mpr (measured_atom ⟨_, rfl⟩))))
  obtain ⟨o, ho, -, hkeys, -, hvalid⟩ := validateNamed_failingPath hs hms hmv rfl (by simp) rfl
  have hage : FailingPath [(ofText "age", ofText "natural")] [(ofText "age", ofInt (-1))] [ofText "age"] :=
    .mismatch List.mem_cons_self rfl rfl (.name rfl rfl)
  have huser : FailingPath [(ofText "user", ofEntries [(ofText "age", ofText "natural")])]
      [(ofText "user", ofEntries [(ofText "age", ofInt (-1))])] [ofText "user", ofText "age"] :=
    .inside List.mem_cons_self rfl rfl rfl hage
  refine ⟨o, ho, ?_, ?_⟩
  · rw [hkeys]
    simpa using ⟨_, huser⟩
  · exact Bool.eq_false_iff.mpr fun h => hvalid.mp h ⟨_, huser⟩

end ArgSchema
