/-
# Which schemas can be satisfied

Some specs are dead: no value that is there meets them, since they ask for a type that is not
understood or not known, for null, for fields of which none is declared, or for nested fields
one of which is dead and required. A dead field that is optional does no harm as long as it is
left out, so a schema has a valid mapping just if it has a field and none that it requires is
dead (`satisfiable_iff`).

That dead specs accept nothing goes by induction on why they are dead (`Dead.rejects`). The
other direction builds a mapping: a sample of each named type, null for optional fields, and
mappings of these, by induction on the plain type (`Classless.exists_met`). Classes are left
out, since of most of them there is no sample that is plain data.

Key definitions: `Dead`, `Classless`, `DeadAt`, `NamedType.sample`.
-/
import ArgSchema.Proofs.DeclaredContent
import ArgSchema.Proofs.Relaxing

namespace ArgSchema

open Value

/-- The field cannot be left out. -/
def Value.IsRequired (spec : Value) : Prop := ∃ c, spec = .fieldSpec c (ofBool false)

/-- A spec that no value meets unless it is null. -/
inductive Dead : Value → Prop where
  /-- The type is none that is understood. -/
  | unsatisfiable {raw optional : Value} : Dead (.fieldSpec (.unsatisfiable raw) optional)
  /-- No type has the name. -/
  | unknown {name optional : Value} {s : String} (hname : name.text? = some s) (hs : NamedType.ofName? s = none) :
      Dead (.fieldSpec (.typeName name) optional)
  /-- Null is asked for, and what is null does not get as far. -/
  | null {name optional : Value} (hname : name.text? = some "null") : Dead (.fieldSpec (.typeName name) optional)
  /-- There are no fields to meet. -/
  | noFields {optional : Value} : Dead (.fieldSpec (.nested []) optional)
  /-- A required field is dead. -/
  | field {fields : Entries} {optional : Value} {f : Value × Value} (hf : f ∈ fields) (hrequired : f.2.IsRequired)
      (hdead : Dead f.2) : Dead (.fieldSpec (.nested fields) optional)

/-- A type that asks for no class, nor does any type inside it. -/
inductive Classless : Value → Prop where
  | leaf {t : Value} (ht : t.nestedEntries? = none) (hclass : t.class? = none) : Classless t
  | nested {t : Value} {inner : Entries} (ht : t.nestedEntries? = some inner)
      (hinner : ∀ e ∈ inner, Classless e.2.askedType) : Classless t

/-- A mapping holds a value under a dead key of the fields, or of nested fields on the way to it;
the way starts at the last argument. -/
inductive DeadAt : Entries → Entries → Value → Prop where
  | here {fields vs : Entries} {f : Value × Value} (hf : f ∈ fields) (hdead : Dead f.2)
      (hpresent : (held vs f.1).isNull = false) : DeadAt fields vs f.1
  | inside {fields vs inner ws : Entries} {k k' optional : Value}
      (hf : (k, .fieldSpec (.nested inner) optional) ∈ fields) (hws : (held vs k).entries? = some ws)
      (h : DeadAt inner ws k') : DeadAt fields vs k

theorem dead_nested_iff {fields : Entries} {optional : Value} : Dead (.fieldSpec (.nested fields) optional) ↔
    fields = [] ∨ ∃ f ∈ fields, f.2.IsRequired ∧ Dead f.2 := by
  constructor
  · rintro (_ | _ | _ | _ | ⟨hf, hrequired, hdead⟩)
    · exact .inl rfl
    · exact .inr ⟨_, hf, hrequired, hdead⟩
  · rintro (rfl | ⟨f, hf, hrequired, hdead⟩)
    · exact .noFields
    · exact .field hf hrequired hdead

/-! ### Dead specs accept nothing -/

/-- A required field does not accept null, so a dead one accepts nothing at all. -/
theorem passes_of_required {v spec : Value} (hrequired : spec.IsRequired)
    (hrejects : v.isNull = false → passes v spec = false) : passes v spec = false := by
  obtain ⟨c, rfl⟩ := hrequired
  cases hnull : v.isNull with
  | true => exact passes_null hnull c false
  | false => exact hrejects hnull

/-- Nested fields are not met by a mapping that fails one of them. -/
theorem nested_rejects {v : Value} {vs fields : Entries} {optional : Bool} {f : Value × Value}
    (hvs : v.entries? = some vs) (hkeys : Entries.Keyed fields) (hsettled : ∀ f ∈ fields, Settled f.2)
    (hdecides : ∀ f ∈ fields, Decides (held vs f.1) f.2) (hf : f ∈ fields)
    (hfails : passes (held vs f.1) f.2 = false) : passes v (.fieldSpec (.nested fields) (ofBool optional)) = false := by
  have hmeets := meets_nested hvs hkeys hsettled hdecides
  rw [passes_of_meets hmeets, not_null_of_entries hvs, if_neg (by decide), Bool.and_eq_false_iff]
  right
  rw [List.all_eq_false]
  exact ⟨f, hf, by rw [hfails]; decide⟩

/-- The fields of a mapping that a check against nested fields is decided for. -/
theorem Decides.fields {v : Value} {vs fields : Entries} {optional : Bool}
    (h : Decides v (.fieldSpec (.nested fields) (ofBool optional))) (hvs : v.entries? = some vs)
    (hkeys : Entries.Keyed fields) (hsettled : ∀ f ∈ fields, Settled f.2) :
    ∀ f ∈ fields, Decides (held vs f.1) f.2 := by
  obtain ⟨ok, hok⟩ := h.meets (not_null_of_entries hvs)
  exact decides_of_nested hvs hkeys hsettled hok

/-- **A dead spec rejects every value that is there.** -/
theorem Dead.rejects {spec : Value} (hdead : Dead spec) : Settled spec → ∀ {v : Value}, v.isNull = false →
    Decides v spec → passes v spec = false := by
  induction hdead with
  | unsatisfiable =>
    rintro (_ | _ | _ | _) v hnull -
    rw [passes_of_meets (meets_unsatisfiable v _ false), hnull]
    rfl
  | @unknown name _ s hname hs =>
    rintro (_ | _ | _ | _) v hnull -
    have hmeets : (meets v false (.typeName name)).result = .ok false := by
      rw [meets_typeName, isOfType, hname]
      simp only [isOfTypeNamed, hs]
    rw [passes_of_meets hmeets, hnull]
    rfl
  | @null name _ hname =>
    rintro (_ | _ | _ | _) v hnull -
    have hmeets : (meets v false (.typeName name)).result = .ok false := by
      rw [meets_typeName, isOfType_name (t := .null) hname, NamedType.holds, hnull]
    rw [passes_of_meets hmeets, hnull]
    rfl
  | noFields =>
    rintro (_ | _ | _ | ⟨hkeys, hsettled, optional⟩) v hnull -
    cases hvs : v.entries? with
    | none =>
      rw [passes_of_meets (meets_nested_none hvs []), hnull]
      rfl
    | some vs =>
      rw [passes_of_meets (meets_nested hvs hkeys hsettled fun f hf => by cases hf), hnull]
      rfl
  | @field fields optional f hf hrequired hdead ih =>
    rintro (_ | _ | _ | ⟨hkeys, hsettled, optional⟩) v hnull hdecides
    cases hvs : v.entries? with
    | none =>
      rw [passes_of_meets (meets_nested_none hvs fields), hnull]
      rfl
    | some vs =>
      have hfields := hdecides.fields hvs hkeys hsettled
      refine nested_rejects hvs hkeys hsettled hfields hf (passes_of_required hrequired fun hpresent => ?_)
      exact ih (hsettled f hf) hpresent (hfields f hf)

/-- The key where the way to a dead field with a value starts is one of those that fail. -/
theorem DeadAt.rejects {fields vs : Entries} {k : Value} (h : DeadAt fields vs k) : Entries.Keyed fields →
    (∀ f ∈ fields, Settled f.2) → (∀ f ∈ fields, Decides (held vs f.1) f.2) →
    ∃ f ∈ fields, f.1 = k ∧ passes (held vs k) f.2 = false := by
  induction h with
  | @here fields vs f hf hdead hpresent =>
    intro _ hsettled hdecides
    exact ⟨f, hf, rfl, hdead.rejects (hsettled f hf) hpresent (hdecides f hf)⟩
  | @inside fields vs inner ws k k' optional hf hws _ ih =>
    intro _ hsettled hdecides
    have hdecided := hdecides _ hf
    obtain _ | _ | _ | ⟨hkeys, hinner, optional⟩ := hsettled _ hf
    have hfields := hdecided.fields hws hkeys hinner
    obtain ⟨g, hg, rfl, hfails⟩ := ih hkeys hinner hfields
    exact ⟨_, hf, rfl, nested_rejects hws hkeys hinner hfields hg hfails⟩

/-! ### The others accept something -/

/-- A value of a type. -/
def NamedType.sample : NamedType → Value
  | .whole | .real | .natural | .number | .finite => ofInt 0
  | .string | .empty => ofText ""
  | .boolean => ofBool true
  | .array | .object => ofList []
  | .plainObject => ofEntries []
  | .function => .atom (.function (.builtin "len"))
  | .date => .atom (.date ⟨2024, 1, 31⟩)
  | .regexp => .atom (.pattern "")
  | .element => .collection (.element "a") 0 []
  | .null => Value.null

theorem NamedType.holds_sample (t : NamedType) : t.holds t.sample = .ok true := by
  cases t <;> rfl

theorem NamedType.sample_plain (t : NamedType) : Plain t.sample := by
  cases t with
  | plainObject => exact .mapping (indexed_keyed [] 0) (by simp)
  | array | object | element => exact .collection (by simp)
  | _ => exact .atom _

theorem NamedType.sample_isNull {t : NamedType} (h : t ≠ .null) : t.sample.isNull = false := by
  cases t <;> first | rfl | exact absurd rfl h

/-- A mapping with a plain value of its own under each key. -/
theorem exists_mapping {fields : Entries} (hkeys : Entries.Keyed fields) {P : Value → Value → Prop}
    (h : ∀ f ∈ fields, ∃ v, Plain v ∧ P v f.2) :
    ∃ vs, Plain (ofEntries vs) ∧ ∀ f ∈ fields, P (held vs f.1) f.2 := by
  choose! value hvalue using h
  have hfst : (fields.map fun f => (f.1, value f)).map Prod.fst = fields.map Prod.fst := by
    rw [List.map_map]
    rfl
  have hvs : Entries.Keyed (fields.map fun f => (f.1, value f)) := by
    refine ⟨?_, ?_⟩
    · rw [hfst]
      exact hkeys.hashable
    · rw [hfst]
      exact hkeys.distinct
  refine ⟨fields.map fun f => (f.1, value f), .mapping hvs fun e he => ?_, fun f hf => ?_⟩
  · obtain ⟨f, hf, rfl⟩ := List.mem_map.mp he
    exact (hvalue f hf).1
  · rw [held_of_entry hvs (List.mem_map_of_mem hf) rfl]
    exact (hvalue f hf).2

/-- A name of a type, other than null, is met by the sample of the type. -/
theorem exists_met_name {name : Value} {s : String} (hname : name.text? = some s)
    (halive : ¬ Dead (.fieldSpec (.typeName name) (ofBool false))) :
    ∃ v, Plain v ∧ v.isNull = false ∧ (meets v false (.typeName name)).result = .ok true := by
  cases ht : NamedType.ofName? s with
  | none => exact absurd (.unknown hname ht) halive
  | some t =>
    have hs : s = t.name := by
      have hfound := List.find?_some ht
      exact (eq_of_beq hfound).symm
    subst hs
    have hne : t ≠ .null := by
      rintro rfl
      exact halive (.null hname)
    refine ⟨t.sample, t.sample_plain, NamedType.sample_isNull hne, ?_⟩
    rw [meets_typeName, isOfType_name hname, t.holds_sample]

/-- Nested fields are met by a mapping if there are any and each of them accepts something. -/
theorem exists_met_nested {fields : Entries} (hkeys : Entries.Keyed fields) (hsettled : ∀ f ∈ fields, Settled f.2)
    (hne : fields ≠ []) (h : ∀ f ∈ fields, ∃ v, Plain v ∧ (fieldResult v f.2).result = .ok (ofBool true)) :
    ∃ v, Plain v ∧ v.isNull = false ∧ (meets v false (.nested fields)).result = .ok true := by
  obtain ⟨vs, hplain, hvs⟩ := exists_mapping (P := fun v spec => (fieldResult v spec).result = .ok (ofBool true)) hkeys h
  have hpasses : ∀ f ∈ fields, passes (held vs f.1) f.2 = true := fun f hf => passes_of_result (hvs f hf)
  refine ⟨ofEntries vs, hplain, rfl, ?_⟩
  have hmeets : (meets (ofEntries vs) false (.nested fields)).result =
      .ok (!fields.isEmpty && fields.all fun f => passes (held vs f.1) f.2) := by
    refine meets_nested rfl hkeys hsettled fun f hf => ?_
    rw [hvs f hf, hpasses f hf]
  rw [hmeets, List.all_eq_true.mpr hpasses, Bool.and_true]
  simpa using hne

/-- **A type that is not dead is met by some plain value**, which is not null. -/
theorem Classless.exists_met {t : Value} (ht : Plain t) : Classless t → ∀ c, t.toConstraint = .ok c →
    ¬ Dead (.fieldSpec c (ofBool false)) →
    ∃ v, Plain v ∧ v.isNull = false ∧ (meets v false c).result = .ok true := by
  refine Plain.induction (P := fun t => Classless t → ∀ c, t.toConstraint = .ok c →
    ¬ Dead (.fieldSpec c (ofBool false)) →
    ∃ v, Plain v ∧ v.isNull = false ∧ (meets v false c).result = .ok true) ?leaf ?nested ht
  case leaf =>
    intro t ht hnested hclass c hc halive
    rw [toConstraint_leaf hnested] at hc
    obtain rfl := Except.ok.inj hc
    cases htext : t.text? with
    | some s =>
      rw [leafConstraint_name htext] at halive ⊢
      exact exists_met_name htext halive
    | none =>
      have hclass : t.class? = none := by
        cases hclass with
        | leaf _ hclass => exact hclass
        | nested h _ => simp [hnested] at h
      rw [ht.leafConstraint_unknown htext hclass] at halive
      exact absurd .unsatisfiable halive
  case nested =>
    intro t inner ht hinner ih hclass c hc halive
    rw [ht.toConstraint_nested hinner] at hc
    obtain ⟨fields, hfields, hc⟩ := bind_eq_ok.mp hc
    obtain rfl := Except.ok.inj hc
    obtain rfl := nestedEntries?_eq_declared hinner
    have hclasses : ∀ e ∈ t.declared, Classless e.2.askedType := by
      cases hclass with
      | leaf h _ => simp [hinner] at h
      | nested h hclasses =>
        obtain rfl := Option.some.inj (hinner.symm.trans h)
        exact hclasses
    rw [dead_nested_iff, not_or] at halive
    obtain ⟨hne, halive⟩ := halive
    have hn : t.toFields = .ok fields := ht.toFields_eq.trans hfields
    obtain ⟨hkeys, hsettled⟩ := ht.settled_fields hn
    refine exists_met_nested hkeys hsettled hne fun f hf => ?_
    obtain ⟨e, he, -, hspec⟩ := mem_normalizeEntries hfields f hf
    obtain ⟨c, b, hc, -, hspec⟩ := (toField_eq_ok (ht.declared e he).not_fieldSpec).mp hspec
    rw [hspec]
    cases b with
    | true =>
      -- an optional field is left out, whatever it asks for
      refine ⟨null, .atom _, ?_⟩
      rw [fieldResult, unlessNull]
      rfl
    | false =>
      have halive' : ¬ Dead (.fieldSpec c (ofBool false)) := fun hdead =>
        halive ⟨f, hf, ⟨c, hspec⟩, hspec ▸ hdead⟩
      obtain ⟨v, hv, hnull, hmeets⟩ := ih e he (hclasses e he) c hc halive'
      refine ⟨v, hv, ?_⟩
      rw [fieldResult_of_meets hmeets, hnull]
      rfl

/-! ### Validating by name -/

/-- A validation by name is valid if there are fields and every one passes. -/
theorem isValid_iff {s v : Value} {vs fields : Entries} {o : Outcome} (hn : s.toFields = .ok fields)
    (hkeys : Entries.Keyed fields) (hsettled : ∀ f ∈ fields, Settled f.2) (hvs : v.entries? = some vs)
    (ho : (validateNamed v s).result = .ok o) :
    o.isValid = true ↔ fields ≠ [] ∧ ∀ f ∈ fields, passes (held vs f.1) f.2 = true := by
  by_cases hne : fields = []
  · rw [validateNamed_some hvs hn, hne] at ho
    obtain rfl := Except.ok.inj ho
    simp [Outcome.isValid, Outcome.structuralError, hne]
  · have hdecides := decides_of_validateNamed hn hkeys hsettled hne hvs ho
    rw [validateNamed_decided hn hkeys hne hvs hdecides] at ho
    obtain rfl := Except.ok.inj ho
    simp only [Outcome.isValid, List.isEmpty_map, List.isEmpty_iff, List.filter_eq_nil_iff, Bool.not_eq_true',
      Bool.not_eq_false, ne_eq, hne, not_false_iff, true_and]

/-- A schema that accepts a mapping has a field, and requires none that is dead. -/
theorem alive_of_valid {s v : Value} {fields : Entries} {o : Outcome} (hn : s.toFields = .ok fields)
    (hkeys : Entries.Keyed fields) (hsettled : ∀ f ∈ fields, Settled f.2) (ho : (validateNamed v s).result = .ok o)
    (hvalid : o.isValid = true) : fields ≠ [] ∧ ∀ f ∈ fields, f.2.IsRequired → ¬ Dead f.2 := by
  cases hvs : v.entries? with
  | none =>
    rw [validateNamed_none hvs] at ho
    obtain rfl := Except.ok.inj ho
    cases hvalid
  | some vs =>
    obtain ⟨hne, hpasses⟩ := (isValid_iff hn hkeys hsettled hvs ho).mp hvalid
    have hdecides := decides_of_validateNamed hn hkeys hsettled hne hvs ho
    refine ⟨hne, fun f hf hrequired hdead => ?_⟩
    have hfails := passes_of_required hrequired fun hpresent =>
      hdead.rejects (hsettled f hf) hpresent (hdecides f hf)
    rw [hpasses f hf] at hfails
    cases hfails

/-- A schema that has a field, and requires none that is dead, accepts a mapping. -/
theorem exists_valid {s : Value} {inner fields : Entries} (hs : Plain s) (hclass : Classless s)
    (hinner : s.nestedEntries? = some inner) (hn : s.toFields = .ok fields) (hne : fields ≠ [])
    (halive : ∀ f ∈ fields, f.2.IsRequired → ¬ Dead f.2) :
    ∃ v o, (validateNamed v s).result = .ok o ∧ o.isValid = true := by
  obtain ⟨hkeys, hsettled⟩ := hs.settled_fields hn
  have hconstraint : s.toConstraint = .ok (.nested fields) := by
    rw [hs.toConstraint_nested hinner, nestedEntries?_eq_declared hinner, ← hs.toFields_eq, hn, ok_bind]
  have hnot : ¬ Dead (.fieldSpec (.nested fields) (ofBool false)) := by
    rw [dead_nested_iff]
    rintro (h | ⟨f, hf, hrequired, hdead⟩)
    · exact hne h
    · exact halive f hf hrequired hdead
  obtain ⟨v, -, -, hmeets⟩ := Classless.exists_met hs hclass _ hconstraint hnot
  cases hvs : v.entries? with
  | none =>
    rw [meets_nested_none hvs] at hmeets
    cases hmeets
  | some vs =>
    have hdecides := decides_of_nested hvs hkeys hsettled hmeets
    have ho := validateNamed_decided hn hkeys hne hvs hdecides
    rw [meets_nested hvs hkeys hsettled hdecides] at hmeets
    have hall := (Bool.and_eq_true_iff.mp (Except.ok.inj hmeets)).2
    exact ⟨v, _, ho, (isValid_iff hn hkeys hsettled hvs ho).mpr ⟨hne, List.all_eq_true.mp hall⟩⟩

theorem DeadAt.ne_nil {fields vs : Entries} {k : Value} (h : DeadAt fields vs k) : fields ≠ [] := by
  cases h with
  | here hf _ _ => exact List.ne_nil_of_mem hf
  | inside hf _ _ => exact List.ne_nil_of_mem hf

/-- The key where the way to a dead field with a value starts is reported. -/
theorem DeadAt.mem_failedKeys {s v k : Value} {vs fields : Entries} {o : Outcome} (h : DeadAt fields vs k)
    (hn : s.toFields = .ok fields) (hkeys : Entries.Keyed fields) (hsettled : ∀ f ∈ fields, Settled f.2)
    (hvs : v.entries? = some vs) (ho : (validateNamed v s).result = .ok o) : k ∈ o.failedKeys := by
  have hdecides := decides_of_validateNamed hn hkeys hsettled h.ne_nil hvs ho
  obtain ⟨f, hf, rfl, hfails⟩ := h.rejects hkeys hsettled hdecides
  rw [validateNamed_decided hn hkeys h.ne_nil hvs hdecides] at ho
  obtain rfl := Except.ok.inj ho
  exact List.mem_map_of_mem (List.mem_filter.mpr ⟨hf, by rw [hfails]; rfl⟩)

/-- Whether a value is valid for a dead spec: it is not, where that can be told. -/
theorem Dead.isFieldValid {spec w : Value} (hdead : Dead spec) (hsettled : Settled spec) (hnull : w.isNull = false) :
    (isFieldValid w spec).result ≠ .ok (ofBool true) ∧
      (Measured w → (isFieldValid w spec).result = .ok (ofBool false)) := by
  rw [hsettled.isFieldValid_result]
  refine ⟨fun h => ?_, fun hmw => ?_⟩
  · have hfails := hdead.rejects hsettled hnull (by rw [Decides, h, passes_of_result h])
    rw [passes_of_result h] at hfails
    cases hfails
  · have hdecides := hsettled.result hmw
    rw [hdecides, hdead.rejects hsettled hnull hdecides]

/-- **A schema can be satisfied just if it has a field and requires no dead one.** A value that
is there is rejected wherever a dead field asks for it, optional or not, and with it the mappings
around it. -/
theorem satisfiable_iff {s : Value} {inner fields : Entries} (hs : Plain s) (hclass : Classless s)
    (hinner : s.nestedEntries? = some inner) (hn : s.toFields = .ok fields) :
    ((∃ v o, (validateNamed v s).result = .ok o ∧ o.isValid = true) ↔
      fields ≠ [] ∧ ∀ f ∈ fields, f.2.IsRequired → ¬ Dead f.2) ∧
    (∀ v vs k, v.entries? = some vs → DeadAt fields vs k →
      (∀ o, (validateNamed v s).result = .ok o → k ∈ o.failedKeys) ∧
      (Measured v → ∃ o, (validateNamed v s).result = .ok o)) ∧
    ∀ f ∈ fields, Dead f.2 → ∀ w, w.isNull = false →
      (isFieldValid w f.2).result ≠ .ok (ofBool true) ∧
      (Measured w → (isFieldValid w f.2).result = .ok (ofBool false)) := by
  obtain ⟨hkeys, hsettled⟩ := hs.settled_fields hn
  refine ⟨⟨?_, ?_⟩, ?_, ?_⟩
  · rintro ⟨v, o, ho, hvalid⟩
    exact alive_of_valid hn hkeys hsettled ho hvalid
  · rintro ⟨hne, halive⟩
    exact exists_valid hs hclass hinner hn hne halive
  · intro v vs k hvs hdeadAt
    exact ⟨fun o ho => hdeadAt.mem_failedKeys hn hkeys hsettled hvs ho,
      fun hmv => ⟨_, validateNamed_result hn hkeys hsettled hdeadAt.ne_nil hmv hvs⟩⟩
  · exact fun f hf hdead w hnull => hdead.isFieldValid (hsettled f hf) hnull

/-- A user whose boss is of a type that nothing has: there are valid users, but without a boss. -/
theorem satisfiable_unknownBoss :
    (∃ v o, (validateNamed v (ofEntries [(ofText "home", ofEntries [(ofText "zip", ofText "natural")]),
      (ofText "boss", ofEntries [(ofText "isa", ofText "wizard"), (ofText "optional", ofBool true)])])).result = .ok o ∧
      o.isValid = true) ∧
    ∀ w, w.isNull = false → (isFieldValid w
      (.fieldSpec (.typeName (ofText "wizard")) (ofBool true))).result ≠ .ok (ofBool true) := by
  have hhome : Plain (ofEntries [(ofText "zip", ofText "natural")]) :=
    plain_named ["zip"] rfl (by decide) (List.forall_mem_singleton.mpr (.atom _))
  have hboss : Plain (ofEntries [(ofText "isa", ofText "wizard"), (ofText "optional", ofBool true)]) := by
    refine plain_named ["isa", "optional"] rfl (by decide) fun e he => ?_
    rcases List.mem_pair.mp he with rfl | rfl <;> exact .atom _
  have hs : Plain (ofEntries [(ofText "home", ofEntries [(ofText "zip", ofText "natural")]),
      (ofText "boss", ofEntries [(ofText "isa", ofText "wizard"), (ofText "optional", ofBool true)])]) := by
    refine plain_named ["home", "boss"] rfl (by decide) fun e he => ?_
    rcases List.mem_pair.mp he with rfl | rfl
    · exact hhome
    · exact hboss
  have hclass : Classless (ofEntries [(ofText "home", ofEntries [(ofText "zip", ofText "natural")]),
      (ofText "boss", ofEntries [(ofText "isa", ofText "wizard"), (ofText "optional", ofBool true)])]) := by
    refine .nested rfl fun e he => ?_
    rcases List.mem_pair.mp he with rfl | rfl
    · exact .nested rfl (List.forall_mem_singleton.mpr (.leaf rfl rfl))
    · exact .leaf rfl rfl
  have hdead : Dead (.fieldSpec (.typeName (ofText "wizard")) (ofBool true)) := .unknown rfl (by decide)
  obtain ⟨hiff, -, hrejects⟩ := satisfiable_iff hs hclass rfl rfl
  refine ⟨hiff.mpr ⟨by simp, fun f hf hrequired hfdead => ?_⟩, fun w hw => ?_⟩
  · rcases List.mem_pair.mp hf with rfl | rfl
    · rcases dead_nested_iff.mp hfdead with h | ⟨g, hg, -, hgdead⟩
      · cases h
      · obtain rfl := List.mem_singleton.mp hg
        obtain _ | ⟨hname, hunknown⟩ | hname := hgdead
        · obtain rfl := Option.some.inj hname
          exact absurd hunknown (by decide)
        · exact absurd hname (by decide)
    · obtain ⟨c, hc⟩ := hrequired
      cases hc
  · exact (hrejects _ (List.mem_cons_of_mem _ List.mem_cons_self) hdead w hw).1

end ArgSchema
