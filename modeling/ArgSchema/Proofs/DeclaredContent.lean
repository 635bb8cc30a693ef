/-
# Only declared content counts

What a schema does not ask for has no influence. Two mappings are alike under fields if each
declared key has the same value in both, or has mappings in both that are alike again under
the nested fields that are declared there. So entries may differ that no field asks for, a
null may stand for an entry that is not there, and neither the kind of a mapping nor the
order of its entries matters (`AlikeUnder.of_entries`); a field that asks for a type by name
still sees the whole value. Alike mappings fail at the same keys and leave the same records.

By position the same holds of items behind the last position that is declared, and of nulls
at the end; there the values of the failed positions are the same too, and with them the
summary.

Key definitions: `Alike`, `AlikeUnder`, `ExtendedBy`.
-/
import ArgSchema.Proofs.Positions

namespace ArgSchema

open Value

/-! ### Values that a schema cannot tell apart -/

/-- Two values that a spec cannot tell apart: they are the same, or nested fields are asked
for and both are mappings that are alike under each key of these. -/
inductive Alike : Value → Value → Value → Prop where
  | same {spec v : Value} : Alike spec v v
  | inside {fields vs vs' : Entries} {optional v v' : Value} (hv : v.entries? = some vs)
      (hv' : v'.entries? = some vs') (h : ∀ f ∈ fields, Alike f.2 (held vs f.1) (held vs' f.1)) :
      Alike (.fieldSpec (.nested fields) optional) v v'

/-- Two mappings that fields cannot tell apart. -/
def AlikeUnder (fields : Entries) (v v' : Value) : Prop :=
  ∃ vs vs', v.entries? = some vs ∧ v'.entries? = some vs' ∧ ∀ f ∈ fields, Alike f.2 (held vs f.1) (held vs' f.1)

/-- `v'` is the sequence `v` with items behind its end that no field asks for: they are null,
or every field has a position before them. -/
def ExtendedBy (fields : Entries) (ws : List Value) (v v' : Value) : Prop :=
  ∃ xs ys, v.sequence? = some xs ∧ v'.sequence? = some ys ∧ ys.elements = xs.elements ++ ws ∧
    ((∀ w ∈ ws, w.isNull = true) ∨ ∀ f ∈ fields, ∀ i, f.1.int? = some i → i < xs.elements.length)

/-- Two validations that report the same keys and write the same records. -/
structure Traced.ReportsLike (x x' : Traced Outcome) : Prop where
  errors : x'.errors = x.errors
  log : x'.log = x.log

theorem held_of_key {vs : Entries} {key : Value} {k : Key} (h : key.key = .ok k) :
    held vs key = (Entries.find? k vs).getD null := by
  rw [held, valueAt, lookup?, h]
  rfl

/-- What stands under a key is an entry of the mapping, or null. -/
theorem held_entry {vs : Entries} {key : Value} (h : (held vs key).isNull = false) :
    ∃ e ∈ vs, e.1.key = key.key ∧ e.2 = held vs key := by
  cases hkey : key.key with
  | error fault =>
    have hnull : held vs key = null := by
      rw [held, valueAt, lookup?, hkey]
      rfl
    rw [hnull] at h
    cases h
  | ok k =>
    rw [held_of_key hkey] at h ⊢
    cases hfind : Entries.find? k vs with
    | none =>
      rw [hfind] at h
      cases h
    | some w =>
      obtain ⟨e, he, hek, rfl⟩ := find?_mem hfind
      exact ⟨e, he, hek, rfl⟩

theorem held_of_entry {vs : Entries} (hvs : Entries.Keyed vs) {e : Value × Value} (he : e ∈ vs) {key : Value}
    (hkey : e.1.key = key.key) : held vs key = e.2 := by
  have hlookup : lookup? vs key = .ok (some e.2) := by
    rw [lookup?, ← hkey]
    exact hvs.lookup he
  rw [held, valueAt, hlookup]
  rfl

/-- Mappings hold the same under a key if they have the same entries there that are not null. -/
theorem held_eq_of_entries {vs vs' : Entries} (hvs : Entries.Keyed vs) (hvs' : Entries.Keyed vs') {key : Value}
    (h : ∀ e : Value × Value, e.1.key = key.key → e.2.isNull = false → (e ∈ vs ↔ e ∈ vs')) :
    held vs key = held vs' key := by
  cases hnull : (held vs key).isNull with
  | false =>
    obtain ⟨e, he, hkey, hval⟩ := held_entry hnull
    have he' : e ∈ vs' := (h e hkey (hval ▸ hnull)).mp he
    rw [← hval, held_of_entry hvs' he' hkey]
  | true =>
    cases hnull' : (held vs' key).isNull with
    | false =>
      obtain ⟨e, he', hkey, hval⟩ := held_entry hnull'
      have he : e ∈ vs := (h e hkey (hval ▸ hnull')).mpr he'
      rw [← hval, held_of_entry hvs he hkey]
    | true => rw [isNull_iff.mp hnull, isNull_iff.mp hnull']

/-- Mappings with the same entries that are declared and not null are alike, whatever their
kinds, the order of their entries and the entries besides. -/
theorem AlikeUnder.of_entries {fields vs vs' : Entries} {v v' : Value} (hv : v.entries? = some vs)
    (hv' : v'.entries? = some vs') (hvs : Entries.Keyed vs) (hvs' : Entries.Keyed vs')
    (h : ∀ f ∈ fields, ∀ e : Value × Value, e.1.key = f.1.key → e.2.isNull = false → (e ∈ vs ↔ e ∈ vs')) :
    AlikeUnder fields v v' := by
  refine ⟨vs, vs', hv, hv', fun f hf => ?_⟩
  rw [held_eq_of_entries hvs hvs' (h f hf)]
  exact .same

/-- Alike mappings are alike as the values of a nested field. -/
theorem AlikeUnder.alike {fields : Entries} {optional v v' : Value} (h : AlikeUnder fields v v') :
    Alike (.fieldSpec (.nested fields) optional) v v' := by
  obtain ⟨vs, vs', hv, hv', hinside⟩ := h
  exact .inside hv hv' hinside

/-! ### By name -/

/-- Fields fail alike on two mappings if each of them has the same outcome on both. -/
theorem failingKeys_held {fields vs vs' : Entries}
    (h : ∀ f ∈ fields, fieldResult (held vs f.1) f.2 = fieldResult (held vs' f.1) f.2) :
    failingKeys (valueAt vs) fields = failingKeys (valueAt vs') fields := by
  refine failingKeys_congr fun f hf => ?_
  cases hkey : f.1.key with
  | error fault =>
    -- a key that cannot be looked up stops both checks
    rw [valueAt, valueAt, lookup?, lookup?, hkey]
    rfl
  | ok k =>
    rw [valueAt_eq ⟨k, hkey⟩, valueAt_eq ⟨k, hkey⟩]
    simpa using h f hf

/-- A spec has the same outcome and the same records for values that it cannot tell apart. -/
theorem Alike.fieldResult_eq {spec v v' : Value} (h : Alike spec v v') :
    fieldResult v spec = fieldResult v' spec := by
  induction h with
  | same => rfl
  | @inside fields vs vs' optional v v' hv hv' _ ih =>
    have hmeets : meets v false (.nested fields) = meets v' false (.nested fields) := by
      rw [meets, meets, meetsFields, meetsFields, hv, hv']
      simp only [failingKeys_held ih]
    rw [fieldResult, fieldResult, unlessNull, unlessNull, not_null_of_entries hv, not_null_of_entries hv', hmeets]

/-- Checks in which the same fields fail report the same, whatever values they are of. -/
theorem reportsLike_checkFields {mode : Mode} {v v' : Value} {fields : Entries}
    {value value' : Value → Except Fault Value} (h : failingKeys value fields = failingKeys value' fields) :
    (checkFields mode v fields value).ReportsLike (checkFields mode v' fields value') := by
  obtain ⟨log, result, hrun⟩ : ∃ log result, failingKeys value fields = ⟨log, result⟩ := ⟨_, _, rfl⟩
  have hrun' := h.symm.trans hrun
  cases result with
  | error fault =>
    rw [checkFields_of_error hrun, checkFields_of_error hrun']
    exact ⟨rfl, rfl⟩
  | ok keys =>
    rw [checkFields_of_ok hrun, checkFields_of_ok hrun']
    exact ⟨rfl, rfl⟩

theorem AlikeUnder.validateNamed {s : Value} {fields : Entries} (hn : s.toFields = .ok fields) {v v' : Value}
    (h : AlikeUnder fields v v') : (validateNamed v s).ReportsLike (validateNamed v' s) := by
  obtain ⟨vs, vs', hv, hv', halike⟩ := h
  have hsame := failingKeys_held fun f hf => (halike f hf).fieldResult_eq
  rw [validateNamed_some hv hn, validateNamed_some hv' hn]
  split
  · exact ⟨rfl, rfl⟩
  · exact reportsLike_checkFields hsame

/-! ### By position -/

/-- Under the key of a field both sequences have the same item, or none. -/
theorem get_extended {fields : Entries} {ws : List Value} {v v' : Value} {xs ys : Sequence}
    (hxs : v.sequence? = some xs) (hys : v'.sequence? = some ys) (hlen : ∃ n, v.length? = .ok n)
    (hlen' : ∃ n, v'.length? = .ok n) (helements : ys.elements = xs.elements ++ ws)
    (hbehind : (∀ w ∈ ws, w.isNull = true) ∨ ∀ f ∈ fields, ∀ i, f.1.int? = some i → i < xs.elements.length) :
    ∀ f ∈ fields, ys.get f.1 = xs.get f.1 := by
  intro f hf
  rw [Sequence.get_eq hxs hlen, Sequence.get_eq hys hlen', helements]
  cases hint : f.1.int? with
  | none => rfl
  | some i =>
    simp only
    by_cases hneg : i < 0
    · rw [if_pos hneg, if_pos hneg]
    rw [if_neg hneg, if_neg hneg]
    by_cases hlt : i.toNat < xs.elements.length
    · rw [List.getElem?_append_left hlt]
    have hge : xs.elements.length ≤ i.toNat := by omega
    rw [List.getElem?_append_right hge, List.getElem?_eq_none hge]
    rcases hbehind with hnull | hbefore
    · cases hw : ws[i.toNat - xs.elements.length]? with
      | none => rfl
      | some w =>
        rw [isNull_iff.mp (hnull w (List.mem_of_getElem? hw))]
        rfl
    · have hcontra := hbefore f hf i hint
      omega

/-- Positional checks with the same values under the keys of the fields end in the same summary. -/
theorem errorString_checkFields {v v' : Value} {xs ys : Sequence} {fields : Entries} (hxs : v.sequence? = some xs)
    (hys : v'.sequence? = some ys) (hget : ∀ f ∈ fields, ys.get f.1 = xs.get f.1) :
    ((checkFields .positional v' fields ys.get).result >>= Outcome.errorString) =
      ((checkFields .positional v fields xs.get).result >>= Outcome.errorString) := by
  have hsame : failingKeys ys.get fields = failingKeys xs.get fields :=
    failingKeys_congr fun f hf => by rw [hget f hf]
  obtain ⟨log, result, hrun⟩ : ∃ log result, failingKeys xs.get fields = ⟨log, result⟩ := ⟨_, _, rfl⟩
  have hrun' := hsame.trans hrun
  cases result with
  | error fault => rw [checkFields_of_error hrun, checkFields_of_error hrun']
  | ok keys =>
    rw [checkFields_of_ok hrun, checkFields_of_ok hrun']
    have hmode : ∀ {w : Value} {zs : Sequence}, w.sequence? = some zs →
        (Outcome.mk keys w fields false).mode = .positional := by
      intro w zs hzs
      rw [Outcome.mode, entries?_of_sequence hzs]
      rfl
    have hitem : ∀ k ∈ keys, (Outcome.mk keys v' fields false).get k = (Outcome.mk keys v fields false).get k := by
      intro k hk
      obtain ⟨f, hf, rfl⟩ := List.mem_map.mp (failingKeys_mem (congrArg Traced.result hrun) k hk)
      rw [Outcome.get, Outcome.get, entries?_of_sequence hxs, entries?_of_sequence hys, hxs, hys]
      exact hget f hf
    show (Outcome.mk keys v' fields false).errorString = (Outcome.mk keys v fields false).errorString
    rw [Outcome.errorString_eq rfl, Outcome.errorString_eq rfl, hmode hxs, hmode hys]
    exact Outcome.summaryIn_congr ⟨keys, v, fields, false⟩ ⟨keys, v', fields, false⟩ rfl rfl hitem .positional

theorem ExtendedBy.validatePositional {s : Value} {fields : Entries} (hn : s.toFields = .ok fields)
    {ws : List Value} {v v' : Value} (h : ExtendedBy fields ws v v') (hlen : ∃ n, v.length? = .ok n)
    (hlen' : ∃ n, v'.length? = .ok n) : (validatePositional v s).ReportsLike (validatePositional v' s) ∧
      ((validatePositional v' s).result >>= Outcome.errorString) =
        ((validatePositional v s).result >>= Outcome.errorString) := by
  obtain ⟨xs, ys, hxs, hys, helements, hbehind⟩ := h
  cases hmode : isNamedSchema s with
  | true =>
    have hmissing : ∀ {w : Value} {zs : Sequence}, w.sequence? = some zs →
        ArgSchema.validatePositional w s = pure (.structuralError Outcome.missingSpec) := by
      intro w zs hzs
      rw [ArgSchema.validatePositional, hzs, hmode]
      rfl
    rw [hmissing hxs, hmissing hys]
    exact ⟨⟨rfl, rfl⟩, rfl⟩
  | false =>
    rw [validatePositional_some hxs hmode hn, validatePositional_some hys hmode hn]
    split
    · exact ⟨⟨rfl, rfl⟩, rfl⟩
    · have hget := get_extended hxs hys hlen hlen' helements hbehind
      have hsame : failingKeys xs.get fields = failingKeys ys.get fields :=
        failingKeys_congr fun f hf => by rw [hget f hf]
      exact ⟨reportsLike_checkFields hsame, errorString_checkFields hxs hys hget⟩

/-! ### Both modes -/

/-- **Only declared content counts.** Whatever the fields of a schema are, mappings that are
alike under them are reported alike by name, and so are by position a sequence and the same
one with items behind its end that no field asks for, down to the text of the summary. -/
theorem validate_declaredContent {s : Value} {fields : Entries} (hs : Plain s) (hn : s.toFields = .ok fields) :
    (∀ v v', AlikeUnder fields v v' →
      (validateNamed v (ofEntries fields)).ReportsLike (validateNamed v' (ofEntries fields))) ∧
    (∀ v v' ws, ExtendedBy fields ws v v' → (∃ n, v.length? = .ok n) → (∃ n, v'.length? = .ok n) →
      (validatePositional v s).ReportsLike (validatePositional v' s) ∧
        ((validatePositional v' s).result >>= Outcome.errorString) =
          ((validatePositional v s).result >>= Outcome.errorString)) := by
  have hfields : (ofEntries fields).toFields = .ok fields := normalizeEntries_idem (hs.toFields_eq.symm.trans hn)
  exact ⟨fun _ _ h => h.validateNamed hfields, fun _ _ _ h hlen hlen' => h.validatePositional hn hlen hlen'⟩

/-- Two fields, the first of them nested, against mappings of positions whose order, kinds and
further entries differ, and against lists with and without a null at the end. -/
theorem validate_declaredContent_nested :
    let s := ofList [ofEntries [(ofText "x", ofText "whole")], ofText "string"]
    let inner : Entries := [(ofText "x", .fieldSpec (.typeName (ofText "whole")) (ofBool false))]
    let fields : Entries := [(ofInt 0, .fieldSpec (.nested inner) (ofBool false)),
      (ofInt 1, .fieldSpec (.typeName (ofText "string")) (ofBool false))]
    let v := ofEntries
      [(ofInt 0, ofEntries [(ofText "x", ofText "?"), (ofText "z", ofInt 3)]), (ofInt 1, ofText "t")]
    let v' : Value := .mapping .ordered 1 [(ofInt 1, ofText "t"), (ofInt 2, null),
      (ofInt 0, .mapping .wrapper 2 [(ofText "y", null), (ofText "x", ofText "?")])]
    AlikeUnder fields v v' ∧ (validateNamed v' (ofEntries fields)).errors = .ok [ofInt 0] ∧
      (validateNamed v' (ofEntries fields)).log = [.failed .named [ofText "x"], .failed .named [ofInt 0]] ∧
      ((validatePositional (ofList [ofInt 5, null]) s).result >>= Outcome.errorString) =
        ((validatePositional (ofList [ofInt 5]) s).result >>= Outcome.errorString) := by
  intro s inner fields v v'
  have hs : Plain s := by
    refine (plain_ofList fun x hx => ?_).1
    rcases List.mem_pair.mp hx with rfl | rfl
    · exact ⟨plain_named ["x"] rfl (by decide) (List.forall_mem_singleton.mpr (.atom _)),
        measured_named ["x"] rfl (List.forall_mem_singleton.mpr (measured_atom ⟨_, rfl⟩))⟩
    · exact ⟨.atom _, measured_atom ⟨_, rfl⟩⟩
  have hinner : AlikeUnder inner (ofEntries [(ofText "x", ofText "?"), (ofText "z", ofInt 3)])
      (.mapping .wrapper 2 [(ofText "y", null), (ofText "x", ofText "?")]) := by
    refine .of_entries rfl rfl (keyed_named ["x", "z"] rfl (by decide)) (keyed_named ["y", "x"] rfl (by decide)) ?_
    intro f hf e hkey hnull
    obtain rfl := List.mem_singleton.mp hf
    have hz : e ≠ (ofText "z", ofInt 3) := by
      rintro rfl
      simp [key_ofText] at hkey
    have hy : e ≠ (ofText "y", null) := by
      rintro rfl
      simp [key_ofText] at hkey
    simp [hz, hy]
  have halike : AlikeUnder fields v v' := by
    refine ⟨_, _, rfl, rfl, fun f hf => ?_⟩
    rcases List.mem_pair.mp hf with rfl | rfl
    · exact hinner.alike
    · exact .same
  have hn : s.toFields = .ok fields := rfl
  obtain ⟨hnamed, hpositional⟩ := validate_declaredContent hs hn
  have hreports := hnamed v v' halike
  have hextended : ExtendedBy fields [null] (ofList [ofInt 5]) (ofList [ofInt 5, null]) :=
    ⟨.items [ofInt 5], .items [ofInt 5, null], rfl, rfl, rfl, .inl (List.forall_mem_singleton.mpr rfl)⟩
  exact ⟨halike, hreports.errors.trans rfl, hreports.log.trans rfl,
    (hpositional _ _ _ hextended ⟨_, rfl⟩ ⟨_, rfl⟩).2⟩

end ArgSchema
