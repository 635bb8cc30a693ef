/-
# The value under a key is the value that was checked

A validation looks up a value for each field and checks it. Afterwards an outcome looks values up
by itself: by the mode that its values allow, instead of the one it was made in. Both find the
same value under every key, also under those that no field has and that no sequence counts to
(`checks_lookup`), so an outcome tells of the values that failed and not of others.

A field fails just if a single check of the value under its key does not hold
(`validateIn_lookup`). That needs what every mapping has: keys that are distinct, and fields that are
normal or can be made so (`Value.Formed`). A schema that was built has them too (`formed_toValue`).

Key definitions: `Mode.lookup`, `Value.fieldVerdict`, `Value.Formed`.
-/
import ArgSchema.Proofs.AsWritten
import ArgSchema.Proofs.Routes

namespace ArgSchema

open Value

/-- The value that a validation in a mode looks up: what a mapping holds under the key, or the
item of a sequence at the position, and null for any other values. -/
def Mode.lookup (mode : Mode) (v key : Value) : Except Fault Value :=
  match mode with
  | .named => match v.entries? with
    | some vs => valueAt vs key
    | none => .ok null
  | .positional => match v.sequence? with
    | some xs => xs.get key
    | none => .ok null

/-- Whether a field holds: its value is looked up and checked, and the outcome is true. -/
def Value.fieldVerdict (value : Value → Except Fault Value) (f : Value × Value) : Except Fault Bool := do
  let w ← value f.1
  (← (fieldResult w f.2).result).truth

/-- Whether a single check of a value against a spec holds. -/
def Value.accepted (v x : Value) : Except Fault Bool := do (← (isFieldValid v x).result).truth

/-- What is so of every mapping and of every schema that was built. -/
def Value.Formed : Value → Prop
  | .mapping _ _ es => Entries.Keyed es
  | .schema _ _ fields => Entries.Keyed fields ∧ ∀ f ∈ fields, ∃ spec, f.2.toField = .ok spec
  | _ => True

/-! ### Fields by their verdicts -/

/-- Whether the verdict on a field is that it fails. -/
def Value.isRejected (value : Value → Except Fault Value) (f : Value × Value) : Bool :=
  match fieldVerdict value f with
  | .ok ok => !ok
  | .error _ => false

theorem isRejected_iff {value : Value → Except Fault Value} {f : Value × Value} :
    isRejected value f = true ↔ fieldVerdict value f = .ok false := by
  unfold isRejected
  cases fieldVerdict value f with
  | error fault => simp
  | ok ok => cases ok <;> simp

/-- **The keys that fail are those with the verdict**, and there is a verdict on every field. -/
theorem failingKeys_verdicts {value : Value → Except Fault Value} : ∀ {fields : Entries} {keys : List Value},
    (failingKeys value fields).result = .ok keys →
    (∀ f ∈ fields, ∃ ok, fieldVerdict value f = .ok ok) ∧ keys = (fields.filter (isRejected value)).map Prod.fst
  | [], keys, h => by
    obtain rfl : [] = keys := by simpa [failingKeys] using h
    exact ⟨by simp, rfl⟩
  | (k, x) :: rest, keys, h => by
    rw [failingKeys] at h
    simp only [Traced.result_bind, Traced.result_lift] at h
    obtain ⟨w, hw, h⟩ := bind_eq_ok.mp h
    obtain ⟨outcome, houtcome, h⟩ := bind_eq_ok.mp h
    obtain ⟨ok, hok, h⟩ := bind_eq_ok.mp h
    obtain ⟨others, hothers, h⟩ := bind_eq_ok.mp h
    obtain rfl : (if ok then others else k :: others) = keys := by simpa using h
    have hverdict : fieldVerdict value (k, x) = .ok ok :=
      bind_eq_ok.mpr ⟨w, hw, bind_eq_ok.mpr ⟨outcome, houtcome, hok⟩⟩
    have hrejected : isRejected value (k, x) = !ok := by rw [isRejected, hverdict]
    obtain ⟨hrest, rfl⟩ := failingKeys_verdicts hothers
    refine ⟨List.forall_mem_cons.mpr ⟨⟨ok, hverdict⟩, hrest⟩, ?_⟩
    rw [List.filter_cons, hrejected]
    cases ok <;> simp

/-- Under keys of which no two are the same, a key fails just with the verdict on its field. -/
theorem failingKeys_verdict {value : Value → Except Fault Value} {fields : Entries} {keys : List Value}
    (hk : Entries.Keyed fields) (h : (failingKeys value fields).result = .ok keys) {f : Value × Value}
    (hf : f ∈ fields) : ∃ ok, fieldVerdict value f = .ok ok ∧ (f.1 ∈ keys ↔ ok = false) := by
  obtain ⟨hverdicts, rfl⟩ := failingKeys_verdicts h
  obtain ⟨ok, hok⟩ := hverdicts f hf
  have hrejected : ok = false ↔ isRejected value f = true := by rw [isRejected_iff, hok, Except.ok.injEq]
  refine ⟨ok, hok, ?_⟩
  rw [hrejected, List.mem_map]
  constructor
  · rintro ⟨g, hg, hkey⟩
    obtain ⟨hmem, hg⟩ := List.mem_filter.mp hg
    obtain rfl : g = f := hk.eq_of_key hmem hf (congrArg Value.key hkey)
    exact hg
  · intro hrejects
    exact ⟨f, List.mem_filter.mpr ⟨hf, hrejects⟩, rfl⟩

/-! ### What is looked up -/

/-- Over a mapping and over a sequence an outcome looks up what the mode does that takes them. -/
theorem get_named {o : Outcome} {vs : Entries} (h : o.values.entries? = some vs) :
    o.get = valueAt vs ∧ Mode.named.lookup o.values = valueAt vs := by
  constructor
  · funext key
    rw [Outcome.get, h]
  · funext key
    rw [Mode.lookup, h]

theorem get_positional {o : Outcome} {xs : Sequence} (h : o.values.sequence? = some xs) :
    o.get = xs.get ∧ Mode.positional.lookup o.values = xs.get := by
  constructor
  · funext key
    rw [Outcome.get, entries?_of_sequence h, h]
  · funext key
    rw [Mode.lookup, h]

/-- **An outcome looks up what was checked**, under every key. -/
theorem checks_lookup {mode : Mode} {v s : Value} {o : Outcome} (h : (validateIn mode v s).result = .ok o)
    (hs : o.structural = false) : o.Checks v s.toFields ∧
      validateIn mode v s = checkFields mode v o.fields (mode.lookup v) ∧ o.get = mode.lookup v := by
  have hmessage : ∀ message, o ≠ .structuralError message := by
    rintro message rfl
    simp [Outcome.structuralError] at hs
  cases mode with
  | named =>
    rcases validateNamed_ends h with ⟨message, -, he⟩ | ⟨vs, hvs, hrun, hc⟩
    · exact absurd he (hmessage message)
    · obtain ⟨hget, hlookup⟩ := get_named (hc.values.symm ▸ hvs)
      rw [hc.values] at hlookup
      refine ⟨hc, ?_, hget.trans hlookup.symm⟩
      rw [hlookup]
      exact hrun
  | positional =>
    rcases validatePositional_ends h with ⟨message, -, he⟩ | ⟨xs, hxs, hrun, hc⟩
    · exact absurd he (hmessage message)
    · obtain ⟨hget, hlookup⟩ := get_positional (hc.values.symm ▸ hxs)
      rw [hc.values] at hlookup
      refine ⟨hc, ?_, hget.trans hlookup.symm⟩
      rw [hlookup]
      exact hrun

/-! ### Single checks of what was looked up -/

theorem Value.Formed.fields {s : Value} {fields : Entries} (hs : s.Formed) (hn : s.toFields = .ok fields) :
    Entries.Keyed fields ∧ ∀ f ∈ fields, ∃ spec, f.2.toField = .ok spec := by
  -- entries under distinct keys are normalized to such fields
  have hnormalized : ∀ {es : Entries}, Entries.Keyed es → normalizeEntries es = .ok fields →
      Entries.Keyed fields ∧ ∀ f ∈ fields, ∃ spec, f.2.toField = .ok spec := fun hk hes =>
    ⟨hk.normalize hes, exists_normalizeEntries_iff.mp ⟨fields, normalizeEntries_idem hes⟩⟩
  have hnone : Entries.Keyed [] ∧ ∀ f ∈ ([] : Entries), ∃ spec, f.2.toField = .ok spec :=
    ⟨indexed_keyed [] 0, by simp⟩
  cases s with
  | mapping kind id es => exact hnormalized hs hn
  | schema id raw fs =>
    obtain rfl : fs = fields := Except.ok.inj hn
    exact hs
  | collection kind id items =>
    rw [toFields] at hn
    split at hn
    · rw [normalizeItems_eq] at hn
      exact hnormalized (indexed_keyed items 0) hn
    · obtain rfl : [] = fields := Except.ok.inj hn
      exact hnone
  | _ =>
    obtain rfl : [] = fields := Except.ok.inj hn
    exact hnone

/-- A schema that is built of a value without equal keys is formed. -/
theorem formed_toValue {raw : Value} {path : Option String} {S : Schema} (hraw : raw.Formed)
    (hbuild : Schema.build raw path = .ok S) (id : Nat) : (S.toValue id).Formed := by
  obtain ⟨-, -, hn⟩ := build_eq_ok.mp hbuild
  by_cases htext : raw.text?.isSome
  · rw [if_pos htext] at hn
    exact Formed.fields (s := ofList [raw]) trivial hn
  · rw [if_neg htext] at hn
    exact hraw.fields hn

/-- **A field fails just if the value that is reported under its key does not pass a single check.**
An outcome that is not structural is about the fields of the schema. Under every key it reports the
value that was looked up for it; for a field, that value is found, and the field fails just if a
check of that value against the field does not hold. -/
theorem validateIn_lookup {mode : Mode} {v s : Value} {o : Outcome} (h : (validateIn mode v s).result = .ok o)
    (hstructural : o.structural = false) (hs : s.Formed) :
    s.toFields = .ok o.fields ∧ validateIn mode v s = checkFields mode v o.fields (mode.lookup v) ∧
      (∀ key, o.get key = mode.lookup v key) ∧
      ∀ f ∈ o.fields, ∃ w ok, o.get f.1 = .ok w ∧ accepted w f.2 = .ok ok ∧ (f.1 ∈ o.failedKeys ↔ ok = false) := by
  obtain ⟨hc, hrun, hget⟩ := checks_lookup h hstructural
  refine ⟨hc.fields, hrun, congrFun hget, fun f hf => ?_⟩
  obtain ⟨hk, hspecs⟩ := hs.fields hc.fields
  obtain ⟨ok, hok, hmem⟩ := failingKeys_verdict hk hc.failing hf
  obtain ⟨w, hw, hok⟩ := bind_eq_ok.mp hok
  obtain ⟨spec, hspec⟩ := hspecs f hf
  have hsingle : isFieldValid w f.2 = fieldResult w f.2 := isFieldValid_eq_fieldResult hspec w
  refine ⟨w, ok, hw, ?_, hmem⟩
  rw [accepted, hsingle]
  exact hok

/-- Two items, by position, against keys of all kinds: a negative number, a flag, which is a position,
a number past the end, and text. By name, against the schema that is built of these. -/
theorem validateIn_lookup_oddKeys :
    let v := ofTuple [ofText "x", ofInt 5]
    let s := ofEntries [(ofInt (-1), ofText "string"), (ofBool true, ofText "whole"),
      (ofInt 7, ofEntries [(ofText "isa", ofText "string"), (ofText "optional", ofBool true)]),
      (ofText "a", ofText "string")]
    (∃ o, (validateIn .positional v s).result = .ok o ∧ o.structural = false ∧ s.Formed ∧
      o.failedKeys = [ofInt (-1), ofText "a"] ∧ o.get (ofBool true) = .ok (ofInt 5) ∧ o.get (ofInt (-1)) = .ok null ∧
      ∀ f ∈ o.fields, ∃ w ok, o.get f.1 = .ok w ∧ accepted w f.2 = .ok ok ∧ (f.1 ∈ o.failedKeys ↔ ok = false)) ∧
    ∃ S o, Schema.build s none = .ok S ∧ (S.toValue 1).Formed ∧
      (validateIn .named (ofEntries [(ofText "a", ofText "x")]) (S.toValue 1)).result = .ok o ∧
      o.failedKeys = [ofInt (-1), ofBool true] ∧
      ∀ f ∈ o.fields, ∃ w ok, o.get f.1 = .ok w ∧ accepted w f.2 = .ok ok ∧ (f.1 ∈ o.failedKeys ↔ ok = false) := by
  intro v s
  have hs : s.Formed := by
    refine ⟨?_, ?_⟩
    · simp only [List.map_cons, List.map_nil, List.forall_mem_cons, List.not_mem_nil, false_implies, implies_true,
        and_true]
      exact ⟨⟨_, rfl⟩, ⟨_, rfl⟩, ⟨_, rfl⟩, ⟨_, rfl⟩⟩
    · simp [Value.key, Atom.key, ofInt, ofBool, ofText]
      decide
  obtain ⟨o, hrun, hstructural, hfailed, htrue, hnegative⟩ : ∃ o, (validateIn .positional v s).result = .ok o ∧
      o.structural = false ∧ o.failedKeys = [ofInt (-1), ofText "a"] ∧ o.get (ofBool true) = .ok (ofInt 5) ∧
      o.get (ofInt (-1)) = .ok null := ⟨_, rfl, rfl, rfl, rfl, rfl⟩
  obtain ⟨-, -, -, hfields⟩ := validateIn_lookup hrun hstructural hs
  refine ⟨⟨o, hrun, hstructural, hs, hfailed, htrue, hnegative, hfields⟩, ?_⟩
  obtain ⟨S, hS, o', hrun', hstructural', hfailed'⟩ : ∃ S, Schema.build s none = .ok S ∧ ∃ o,
      (validateIn .named (ofEntries [(ofText "a", ofText "x")]) (S.toValue 1)).result = .ok o ∧
      o.structural = false ∧ o.failedKeys = [ofInt (-1), ofBool true] := ⟨_, rfl, _, rfl, rfl, rfl⟩
  have hbuilt : (S.toValue 1).Formed := formed_toValue hs hS 1
  obtain ⟨-, -, -, hfields'⟩ := validateIn_lookup hrun' hstructural' hbuilt
  exact ⟨S, o', hS, hbuilt, hrun', hfailed', hfields'⟩

end ArgSchema
