/-
# Ways to validate that agree

There are many ways to validate values: strictly by name or by position, with shorthand, freely,
by a schema that was built once, with the fields spread over the arguments. They normalize once,
twice or three times, and look at the shape of the schema and of the values in different orders.
Still a request comes down to its mode, its values and the fields that its schema stands for
(`Request.run_eq`): fields are normal already, so they may be normalized once more.

So the ways to validate by name agree on every mapping that has a normal form
(`namedRequests_agree`), and the ways to validate by position on every list or tuple
(`positionalRequests_agree`), with the same outcome, records and faults. Spread arguments are an
exception if there is just one and it is a list, a tuple or a schema, which is then the schema.

Key definitions: `validateIn`, `Request.mode?`.
-/
import ArgSchema.Proofs.Confluence
import ArgSchema.Proofs.Positions

namespace ArgSchema

open Value

/-- Validation in a mode. -/
def validateIn : Mode → Value → Value → Traced Outcome
  | .named => validateNamed
  | .positional => validatePositional

/-- The mode that the shape of a schema asks for. -/
def Value.modeOf : Value → Mode
  | .schema _ raw _ => if raw.isPositionalSpelling then .positional else .named
  | s => if s.isPositionalSpelling then .positional else .named

/-- The mode of a request. There is none if the empty text stands for a schema, or if positions
are asked for of a schema that has names. -/
def Request.mode? : Request → Option Mode
  | .named _ _ | .namedStrictly _ _ | .namedObject _ _ => some .named
  | .freely _ s => if s.text? = some "" then none else some s.modeOf
  | .positional _ args => if isNamedSchema (spreadSchema args) then none else some .positional
  | .positionalStrictly _ s => if isNamedSchema s then none else some .positional
  | .bySchema s _ => some (if isNamedSchema s then .named else .positional)

/-! ### A request comes down to its mode, its values and its fields -/

section

variable {s : Value} {fields : Entries}

/-- What is normal already may stand for the schema that it comes from. -/
theorem validateNamed_fields (hn : s.toFields = .ok fields) (hidem : normalizeEntries fields = .ok fields) (v : Value) :
    validateNamed v s = validateNamed v (ofEntries fields) := by
  have hto : (ofEntries fields).toFields = .ok fields := hidem
  exact validateNamed_congr (hn.trans hto.symm) v

theorem validatePositional_fields (hn : s.toFields = .ok fields) (hidem : normalizeEntries fields = .ok fields)
    (hmode : isNamedSchema s = false) (v : Value) :
    validatePositional v s = validatePositional v (ofEntries fields) := by
  have hto : (ofEntries fields).toFields = .ok fields := hidem
  exact validatePositional_congr (hn.trans hto.symm) hmode v

theorem named_fields (hn : s.toFields = .ok fields) (v : Value) : named v s = validateNamed v (ofEntries fields) := by
  rw [named, hn]
  rfl

theorem validateWith_fields (hn : s.toFields = .ok fields) (hidem : normalizeEntries fields = .ok fields) (v : Value) :
    validateWith s v = validateIn (if isNamedSchema s then .named else .positional) v (ofEntries fields) := by
  unfold validateWith
  split
  · exact validateNamed_fields hn hidem v
  · rename_i hmode
    exact validatePositional_fields hn hidem (by simpa using hmode) v

end

/-- The mode of a schema that was built is the one that its shape asks for. -/
theorem modeOf_schema (id : Nat) (raw : Value) (fields : Entries) : (Value.schema id raw fields).modeOf =
    if isNamedSchema (.schema id raw fields) then .named else .positional := by
  by_cases h : raw.isPositionalSpelling <;> simp [modeOf, isNamedSchema, h]

/-- Freely validated is what has the mode that the shape of the schema asks for. -/
theorem validate_fields {v s : Value} {fields : Entries} (htext : s.text? ≠ some "")
    (hn : (Request.freely v s).schema.toFields = .ok fields) (hidem : normalizeEntries fields = .ok fields) :
    validate v s = validateIn s.modeOf v (ofEntries fields) := by
  by_cases hschema : ∃ id raw fs, s = .schema id raw fs
  · obtain ⟨id, raw, fs, rfl⟩ := hschema
    rw [modeOf_schema]
    exact validateWith_fields hn hidem v
  · have hne : ∀ id raw fs, s ≠ .schema id raw fs := fun id raw fs he => hschema ⟨id, raw, fs, he⟩
    have hmodeOf : s.modeOf = if s.isPositionalSpelling then .positional else .named := by
      cases s with
      | schema id raw fs => exact absurd rfl (hne id raw fs)
      | _ => rfl
    rw [validate_of_ne hne, hmodeOf, isPositionalSpelling]
    -- the empty text, another type name, a list or a tuple, anything else
    split
    · exact absurd ‹_› htext
    · rename_i name _ hname
      rw [Request.schema, hname] at hn
      simp only [hname, Option.isSome_some, Bool.or_true, ↓reduceIte]
      exact validatePositional_fields hn hidem rfl v
    · rename_i hnone
      rw [Request.schema, hnone] at hn
      simp only [hnone, Option.isSome_none, Bool.or_false]
      split
      · exact validatePositional_fields hn hidem (isNamedSchema_of_ne hne) v
      · exact validateNamed_fields hn hidem v

/-- **A request comes down to its mode, its values and its fields.** -/
theorem Request.run_eq {r : Request} {mode : Mode} {fields : Entries} (hmode : r.mode? = some mode)
    (hn : r.schema.toFields = .ok fields) (hidem : normalizeEntries fields = .ok fields) :
    r.run = validateIn mode r.values (ofEntries fields) := by
  cases r with
  | freely v s =>
    have htext : s.text? ≠ some "" := by
      intro h
      simp [mode?, h] at hmode
    obtain rfl : s.modeOf = mode := by simpa [mode?, htext] using hmode
    exact validate_fields htext hn hidem
  | named v s =>
    obtain rfl := Option.some.inj hmode
    exact named_fields hn v
  | namedStrictly v s =>
    obtain rfl := Option.some.inj hmode
    exact validateNamed_fields hn hidem v
  | namedObject v s =>
    obtain rfl := Option.some.inj hmode
    exact named_fields hn v
  | positional v args =>
    obtain ⟨hnamed, rfl⟩ : isNamedSchema (spreadSchema args) = false ∧ Mode.positional = mode := by
      simpa [mode?] using hmode
    exact validatePositional_fields hn hidem hnamed v
  | positionalStrictly v s =>
    obtain ⟨hnamed, rfl⟩ : isNamedSchema s = false ∧ Mode.positional = mode := by simpa [mode?] using hmode
    exact validatePositional_fields hn hidem hnamed v
  | bySchema s v =>
    obtain rfl := Option.some.inj hmode
    exact validateWith_fields hn hidem v

/-- Requests of one mode with the same values and the same fields have the same outcome. -/
theorem Request.run_congr {r r' : Request} {mode : Mode} {fields : Entries} (hmode : r.mode? = some mode)
    (hmode' : r'.mode? = some mode) (hvalues : r.values = r'.values) (hn : r.schema.toFields = .ok fields)
    (hn' : r'.schema.toFields = .ok fields) (hidem : normalizeEntries fields = .ok fields) : r.run = r'.run := by
  rw [Request.run_eq hmode hn hidem, Request.run_eq hmode' hn' hidem, hvalues]

/-! ### By name -/

/-- **The ways to validate by name agree** on every mapping that has a normal form, and on the
schemas that are built from it and from a copy of it: same outcome, same records, and the same
fault if there is one. -/
theorem namedRequests_agree {m : Value} {fields : Entries} (hm : m.entries?.isSome) (hn : m.toFields = .ok fields)
    (v : Value) (path : Option String) (room id copy : Nat) :
    ∃ S D, Schema.build m path = .ok S ∧ Schema.ofMapping room copy m = .ok D ∧
      ∀ r ∈ [Request.named v m, .namedObject v m, .freely v m, .namedStrictly v (S.toValue id),
        .named v (S.toValue id), .bySchema (S.toValue id) v, .bySchema (D.toValue id) v],
        r.run = validateNamed v m := by
  obtain ⟨es, hes⟩ := Option.isSome_iff_exists.mp hm
  obtain ⟨kind, id', rfl⟩ : ∃ kind id', m = .mapping kind id' es := by
    cases m with
    | mapping kind id' es' =>
      obtain rfl : es' = es := by simpa [entries?] using hes
      exact ⟨kind, id', rfl⟩
    | _ => simp [entries?] at hes
  have hidem : normalizeEntries fields = .ok fields := normalizeEntries_idem hn
  have agrees : ∀ r : Request, r.mode? = some .named → r.values = v → r.schema.toFields = .ok fields →
      r.run = (Request.namedStrictly v (.mapping kind id' es)).run := fun r hmode hvalues hfields =>
    Request.run_congr hmode rfl hvalues hfields hn hidem
  refine ⟨⟨.mapping kind id' es, fields, path⟩, ⟨.mapping .dict copy es, fields, none⟩,
    build_eq_ok.mpr ⟨rfl, rfl, hn⟩, build_eq_ok.mpr ⟨rfl, rfl, hn⟩, ?_⟩
  simp only [List.forall_mem_cons, List.not_mem_nil, false_implies, implies_true, and_true]
  exact ⟨agrees _ rfl rfl hn, agrees _ rfl rfl hn, agrees _ rfl rfl hn, agrees _ rfl rfl rfl, agrees _ rfl rfl rfl,
    agrees _ rfl rfl rfl, agrees _ rfl rfl rfl⟩

/-- A mapping that keeps its order, with a nested field, against a list and against a mapping that
fails inside. -/
theorem namedRequests_agree_nested :
    let m : Value := .mapping .ordered 1 [(ofText "user", ofEntries [(ofText "age", ofText "natural")])]
    let v := ofEntries [(ofText "user", ofEntries [(ofText "age", ofInt (-1))])]
    ∃ S D, Schema.build m none = .ok S ∧ Schema.ofMapping 1000 2 m = .ok D ∧
      (Request.bySchema (D.toValue 3) (ofList [])).run = (Request.namedObject (ofList []) m).run ∧
      (Request.named v (S.toValue 3)).run.errors = .ok [ofText "user"] ∧
      (Request.freely v m).run.log = [.failed .named [ofText "age"], .failed .named [ofText "user"]] := by
  intro m v
  have hn : m.toFields = .ok [(ofText "user", .fieldSpec (.nested
      [(ofText "age", .fieldSpec (.typeName (ofText "natural")) (ofBool false))]) (ofBool false))] := rfl
  obtain ⟨S, D, hS, hD, hlist⟩ := namedRequests_agree rfl hn (ofList []) none 1000 3 2
  obtain ⟨S', _, hS', _, hmapping⟩ := namedRequests_agree rfl hn v none 1000 3 2
  obtain rfl : S = S' := Except.ok.inj (hS.symm.trans hS')
  refine ⟨S, D, hS, hD, ?_, ?_, ?_⟩
  · rw [hlist _ (by simp), hlist (.namedObject (ofList []) m) (by simp)]
  · rw [hmapping _ (by simp)]
    rfl
  · rw [hmapping _ (by simp)]
    rfl

/-! ### By position -/

/-- Arguments that are spread stand for the list of them, unless there is just one that is a list,
a tuple or a schema. -/
theorem spreadSchema_eq {args : List Value}
    (h : ∀ x, args = [x] → x.listItems? = none ∧ ∀ id raw fields, x ≠ .schema id raw fields) :
    spreadSchema args = ofList args := by
  unfold spreadSchema
  split
  · rename_i id raw fields
    exact absurd rfl ((h _ rfl).2 id raw fields)
  · rename_i x _
    rw [(h x rfl).1]
    rfl
  · rfl

/-- A single list or tuple is the schema itself. -/
theorem spreadSchema_listItems {s : Value} {items : List Value} (h : s.listItems? = some items) :
    spreadSchema [s] = s := by
  obtain ⟨kind, id, rfl, -⟩ := listItems?_some h
  rw [spreadSchema, h]
  · rfl
  · simp

/-- **The ways to validate by position agree** on every list or tuple that has a normal form, and
on the schema that is built from it. Spread over the arguments its items stand for the same, unless
it has one item only and that is a list, a tuple or a schema: then that item is the schema. -/
theorem positionalRequests_agree {s : Value} {items : List Value} {fields : Entries}
    (hitems : s.listItems? = some items) (hn : s.toFields = .ok fields) (v : Value) (path : Option String) (id : Nat) :
    ∃ S, Schema.build s path = .ok S ∧
      (∀ r ∈ [Request.positional v [s], .freely v s, .bySchema (S.toValue id) v, .positional v [S.toValue id]],
        r.run = validatePositional v s) ∧
      ((∀ x, items = [x] → x.listItems? = none ∧ ∀ id raw fields, x ≠ .schema id raw fields) →
        (Request.positional v items).run = validatePositional v s) ∧
      (∀ x, items = [x] → x.listItems?.isSome ∨ (∃ id raw fields, x = .schema id raw fields) →
        (Request.positional v items).run = validatePositional v x) := by
  obtain ⟨htoFields, hnamed⟩ := toFields_listItems hitems
  have hidem : normalizeEntries fields = .ok fields := normalizeEntries_idem (htoFields.symm.trans hn)
  have hstrict : (Request.positionalStrictly v s).mode? = some .positional := by
    rw [Request.mode?, hnamed]
    rfl
  have agrees : ∀ r : Request, r.mode? = some .positional → r.values = v → r.schema.toFields = .ok fields →
      r.run = validatePositional v s := fun r hmode hvalues hfields =>
    Request.run_congr hmode hstrict hvalues hfields hn hidem
  obtain ⟨kind, id', rfl, hkind⟩ := listItems?_some hitems
  have hpos : (Value.collection kind id' items).isPositionalSpelling = true := by simp [isPositionalSpelling, hitems]
  have hschema : isNamedSchema (.schema id (.collection kind id' items) fields) = false := by
    rw [isNamedSchema, hpos]
    rfl
  have hself := spreadSchema_listItems hitems
  refine ⟨⟨.collection kind id' items, fields, path⟩, build_eq_ok.mpr ⟨rfl, rfl, hn⟩, ?_, fun hspread => ?_, ?_⟩
  · have hfirst := agrees (.positional v [.collection kind id' items]) (by rw [Request.mode?, hself]; rfl) rfl
      (by rw [Request.schema, hself]; exact hn)
    have hfreely := agrees (.freely v (.collection kind id' items)) (by simp [Request.mode?, text?, modeOf, hpos]) rfl hn
    have hbuilt := agrees (.bySchema (.schema id (.collection kind id' items) fields) v)
      (by rw [Request.mode?, hschema]; rfl) rfl rfl
    have hspelled := agrees (.positional v [.schema id (.collection kind id' items) fields])
      (by rw [Request.mode?, spreadSchema, hschema]; rfl) rfl rfl
    simp only [List.forall_mem_cons, List.not_mem_nil, false_implies, implies_true, and_true]
    exact ⟨hfirst, hfreely, hbuilt, hspelled⟩
  · have hlist := spreadSchema_eq hspread
    refine agrees (.positional v items) (by rw [Request.mode?, hlist]; rfl) rfl ?_
    have hitems' : (ofList items).listItems? = some items := rfl
    rw [Request.schema, hlist, (toFields_listItems hitems').1, ← htoFields, hn]
  · rintro x rfl (hlist | ⟨id, raw, fields, rfl⟩)
    · obtain ⟨xs, hxs⟩ := Option.isSome_iff_exists.mp hlist
      rw [Request.run, positional, spreadSchema_listItems hxs]
    · rfl

/-- Two items, spread over the arguments, and a single tuple, which is taken for the schema. -/
theorem positionalRequests_agree_spread :
    (Request.positional (ofTuple [ofInt 1]) [ofText "whole", ofText "string"]).run =
        validatePositional (ofTuple [ofInt 1]) (ofList [ofText "whole", ofText "string"]) ∧
      (Request.positional (ofTuple [ofInt 1]) [ofText "whole", ofText "string"]).run.errors = .ok [ofInt 1] ∧
      (Request.positional (ofList [ofInt 1]) [ofTuple [ofText "whole"]]).run =
        validatePositional (ofList [ofInt 1]) (ofTuple [ofText "whole"]) := by
  have hn : (ofList [ofText "whole", ofText "string"]).toFields = .ok
      [(ofInt 0, .fieldSpec (.typeName (ofText "whole")) (ofBool false)),
        (ofInt 1, .fieldSpec (.typeName (ofText "string")) (ofBool false))] := rfl
  have hn' : (ofList [ofTuple [ofText "whole"]]).toFields = .ok
      [(ofInt 0, .fieldSpec (.unsatisfiable (ofTuple [ofText "whole"])) (ofBool false))] := rfl
  obtain ⟨-, -, -, hspread, -⟩ := positionalRequests_agree rfl hn (ofTuple [ofInt 1]) none 0
  obtain ⟨-, -, -, -, hsingle⟩ := positionalRequests_agree rfl hn' (ofList [ofInt 1]) none 0
  have hboth := hspread (by simp)
  refine ⟨hboth, ?_, hsingle _ rfl (.inl rfl)⟩
  rw [hboth]
  rfl

end ArgSchema
