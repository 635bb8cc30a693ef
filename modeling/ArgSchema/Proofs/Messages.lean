/-
# When messages are found

A field is described if it is a field spec whose constraint has a description; nested
fields have one if each of them is described (`described_nested`). The summary of an
outcome needs more than that: for each key that failed, the value is found again and
measured, and unless it is empty the field must be described. With that it is a text, and
without it a fault (`errorString_iff`).

The fields of plain data are all described (`Settled.described`), and the values of a
measured value are found and measured (`Outcome.get_total`).

Key definitions: `Described`, `Outcome.CanTell`.
-/
import ArgSchema.Proofs.Checking

namespace ArgSchema

open Value

/-! ### Descriptions -/

/-- A field spec whose constraint has a description. -/
def Described (spec : Value) : Prop :=
  ∃ isa optional d, spec = .fieldSpec isa optional ∧ isa.describe = .ok d

theorem described_fieldSpec {isa optional : Value} :
    Described (.fieldSpec isa optional) ↔ ∃ d, isa.describe = .ok d := by
  constructor
  · rintro ⟨_, _, d, he, hd⟩
    obtain ⟨rfl, rfl⟩ : isa = _ ∧ optional = _ := by simpa using he
    exact ⟨d, hd⟩
  · rintro ⟨d, hd⟩
    exact ⟨isa, optional, d, rfl, hd⟩

theorem describeEntries_of_described : ∀ {fields : Entries}, (∀ f ∈ fields, Described f.2) →
    ∃ texts, describeEntries fields = .ok texts
  | [], _ => ⟨[], by simp [describeEntries]⟩
  | (k, x) :: rest, h => by
    obtain ⟨isa, optional, d, rfl, hd⟩ := h (k, x) List.mem_cons_self
    obtain ⟨texts, htexts⟩ := describeEntries_of_described fun f hf => h f (List.mem_cons_of_mem _ hf)
    exact ⟨_, by rw [describeEntries, hd, ok_bind, htexts, ok_bind]⟩

theorem described_of_describeEntries : ∀ {fields : Entries} {texts : List String},
    describeEntries fields = .ok texts → ∀ f ∈ fields, Described f.2
  | (k, x) :: rest, texts, h, f, hf => by
    have hx : ∃ isa optional, x = .fieldSpec isa optional := by
      cases x with
      | fieldSpec isa optional => exact ⟨isa, optional, rfl⟩
      | _ => simp [describeEntries] at h
    obtain ⟨isa, optional, rfl⟩ := hx
    rw [describeEntries, bind_eq_ok] at h
    obtain ⟨d, hd, h⟩ := h
    obtain ⟨texts', htexts, -⟩ := bind_eq_ok.mp h
    rcases List.mem_cons.mp hf with rfl | hf
    · exact described_fieldSpec.mpr ⟨d, hd⟩
    · exact described_of_describeEntries htexts f hf

/-- Nested fields have a description if and only if each of them has. -/
theorem described_nested {fields : Entries} {optional : Value} :
    Described (.fieldSpec (.nested fields) optional) ↔ ∀ f ∈ fields, Described f.2 := by
  rw [described_fieldSpec]
  constructor
  · rintro ⟨d, hd⟩
    rw [describe, bind_eq_ok] at hd
    obtain ⟨texts, htexts, -⟩ := hd
    exact described_of_describeEntries htexts
  · intro h
    obtain ⟨texts, htexts⟩ := describeEntries_of_described h
    exact ⟨_, by rw [describe, htexts, ok_bind]⟩

theorem described_typeName (name optional : Value) : Described (.fieldSpec (.typeName name) optional) :=
  described_fieldSpec.mpr ⟨name, by rw [describe]⟩

theorem described_class (c : Class) (optional : Value) :
    Described (.fieldSpec (.instanceOf (.atom (.cls c))) optional) :=
  described_fieldSpec.mpr ⟨ofText c.name, by rw [describe]; rfl⟩

theorem described_unsatisfiable (raw optional : Value) : Described (.fieldSpec (.unsatisfiable raw) optional) :=
  described_fieldSpec.mpr ⟨ofText raw.shown, by rw [describe]⟩

theorem Settled.described {spec : Value} (h : Settled spec) : Described spec := by
  induction h with
  | typeName => exact described_typeName _ _
  | instanceOf => exact described_class _ _
  | unsatisfiable => exact described_unsatisfiable _ _
  | nested _ _ _ ih => exact described_nested.mpr ih

/-! ### Values of an outcome -/

/-- A measured range has as many numbers as it says. -/
theorem Measured.rangeSize {start stop step : Int} (h : Measured (.atom (.range start stop step))) :
    rangeSize start stop step = .ok (rangeLength start stop step) := by
  obtain ⟨n, hn⟩ := h.length
  rw [length?, Atom.length?] at hn
  unfold ArgSchema.rangeSize at hn ⊢
  simp only at hn ⊢
  split
  · rename_i hhuge
    simp [hhuge] at hn
  · rfl

/-- The items of a measured sequence are found, and are measured. -/
theorem Measured.get {v : Value} {xs : Sequence} (h : Measured v) (hxs : v.sequence? = some xs) (key : Value) :
    ∃ w, xs.get key = .ok w ∧ Measured w := by
  -- only a collection has its items for parts; those of a range, of bytes or of text are made here
  have hitems : ∀ items : List Value, (∀ x ∈ items, Measured x) →
      ∃ w, (Sequence.items items).get key = .ok w ∧ Measured w := by
    intro items hm
    unfold Sequence.get
    split
    · exact ⟨_, rfl, measured_null⟩
    · rename_i i _
      split
      · exact ⟨_, rfl, measured_null⟩
      · cases hi : items[i.toNat]? with
        | none => exact ⟨_, rfl, by simpa [hi] using measured_null⟩
        | some x => exact ⟨x, by simp [hi], hm x (List.mem_of_getElem? hi)⟩
  cases v with
  | collection kind id items =>
    have hxs' : xs = .items items := by cases kind <;> simp_all [sequence?]
    rw [hxs']
    exact hitems items fun x hx => h.part hx
  | atom a =>
    cases a with
    | range start stop step =>
      obtain rfl : Sequence.range start stop step = xs := by simpa [sequence?] using hxs
      unfold Sequence.get
      split
      · exact ⟨_, rfl, measured_null⟩
      · split
        · exact ⟨_, rfl, measured_null⟩
        · simp only [h.rangeSize, ok_bind]
          refine ⟨_, rfl, ?_⟩
          split
          · exact measured_atom ⟨none, rfl⟩
          · exact measured_null
    | bytes kind data =>
      cases kind with
      | view =>
        obtain rfl : Sequence.items (byteNumbers data) = xs := by simpa [sequence?] using hxs
        refine hitems _ fun x hx => ?_
        obtain ⟨b, -, rfl⟩ := List.mem_map.mp hx
        exact measured_atom ⟨none, rfl⟩
      | _ => simp [sequence?] at hxs
    | text kind s =>
      cases kind with
      | wrapper =>
        obtain rfl : Sequence.items (characters .wrapper s) = xs := by simpa [sequence?] using hxs
        refine hitems _ fun x hx => ?_
        obtain ⟨c, -, rfl⟩ := List.mem_map.mp hx
        exact measured_atom ⟨_, rfl⟩
      | _ => simp [sequence?] at hxs
    | _ => simp [sequence?] at hxs
  | _ => simp [sequence?] at hxs

theorem Outcome.get_total {o : Outcome} (h : Measured o.values) {key : Value} (hk : ∃ k, key.key = .ok k) :
    ∃ w, o.get key = .ok w ∧ Measured w := by
  unfold Outcome.get
  cases hvs : o.values.entries? with
  | some vs => exact ⟨_, valueAt_eq hk, h.held hvs key⟩
  | none =>
    cases hxs : o.values.sequence? with
    | some xs => exact h.get hxs key
    | none => exact ⟨_, rfl, measured_null⟩

/-! ### Summaries -/

/-- What one failed field is reported as can be told: its value is found and measured, and
the field is described unless the value is empty. -/
def Outcome.CanTell (o : Outcome) (f : Value × Value) : Prop :=
  ∃ v empty, o.get f.1 = .ok v ∧ v.isEmpty = .ok empty ∧ (empty = true ∨ Described f.2)

theorem Outcome.canTell {o : Outcome} (hm : Measured o.values) (hk : Entries.Keyed o.fields) {f : Value × Value}
    (hf : f ∈ o.fields) (hd : Described f.2) : o.CanTell f := by
  obtain ⟨v, hv, hmv⟩ := Outcome.get_total hm (hk.hashable f.1 (List.mem_map_of_mem hf))
  obtain ⟨empty, hempty⟩ := hmv.isEmpty
  exact ⟨v, empty, hv, hempty, .inr hd⟩

theorem clause_iff {mode : Mode} {v key spec : Value} : (∃ text, Outcome.clause mode v key spec = .ok text) ↔
    ∃ empty, v.isEmpty = .ok empty ∧ (empty = true ∨ Described spec) := by
  unfold Outcome.clause
  cases v.isEmpty with
  | error e => simp
  | ok empty =>
    cases empty with
    | true => simp
    | false =>
      cases spec with
      | fieldSpec isa optional => cases hd : isa.describe <;> simp [Value.constraint, described_fieldSpec, hd]
      | _ => simp [Value.constraint, Described]

theorem clauseFor_iff {o : Outcome} (hk : Entries.Keyed o.fields) {f : Value × Value} (hf : f ∈ o.fields) :
    (∃ text, o.clauseFor f.1 = .ok text) ↔ o.CanTell f := by
  unfold Outcome.clauseFor Outcome.CanTell
  rw [hk.lookup hf]
  cases o.get f.1 with
  | error e => simp
  | ok v =>
    simp only [ok_bind, clause_iff, Except.ok.injEq]
    constructor
    · rintro ⟨empty, h⟩
      exact ⟨v, empty, rfl, h⟩
    · rintro ⟨_, empty, rfl, h⟩
      exact ⟨empty, h⟩

theorem mapM_iff {α β : Type} {f : α → Except Fault β} : ∀ {xs : List α},
    (∃ ys, xs.mapM f = .ok ys) ↔ ∀ x ∈ xs, ∃ y, f x = .ok y
  | [] => by simp [pure, Except.pure]
  | x :: xs => by
    rw [List.mapM_cons, List.forall_mem_cons, ← mapM_iff]
    cases f x with
    | error e => simp
    | ok y =>
      rw [ok_bind]
      cases xs.mapM f <;> simp [pure, Except.pure]

/-- **The summary of an outcome is a text** if and only if every failed field can be told. -/
theorem errorString_iff {o : Outcome} (hs : o.structural = false) (hk : Entries.Keyed o.fields)
    (hmem : ∀ k ∈ o.failedKeys, k ∈ o.fields.map Prod.fst) :
    (∃ text, o.errorString = .ok (ofText text)) ↔ ∀ f ∈ o.fields, f.1 ∈ o.failedKeys → o.CanTell f := by
  have hclauses : (∃ text, o.errorString = .ok (ofText text)) ↔ ∃ cs, o.failedKeys.mapM o.clauseFor = .ok cs := by
    unfold Outcome.errorString
    rw [hs]
    cases o.failedKeys.mapM o.clauseFor <;> simp [ofText]
  rw [hclauses, mapM_iff]
  constructor
  · intro h f hf hfailed
    exact (clauseFor_iff hk hf).mp (h f.1 hfailed)
  · intro h k hfailed
    obtain ⟨f, hf, rfl⟩ := List.mem_map.mp (hmem k hfailed)
    exact (clauseFor_iff hk hf).mpr (h f hf hfailed)

/-- The summary of a structural outcome is its message. -/
theorem errorString_structural (message : String) :
    (Outcome.structuralError message).errorString = .ok (ofText message) := rfl

/-- The keys that a check reports stand in the order of the fields. -/
theorem failingKeys_sublist {value : Value → Except Fault Value} : ∀ {fields : Entries} {keys : List Value},
    (failingKeys value fields).result = .ok keys → keys.Sublist (fields.map Prod.fst)
  | [], keys, h => by
    obtain rfl : [] = keys := by simpa [failingKeys] using h
    exact List.Sublist.slnil
  | (k, x) :: rest, keys, h => by
    rw [failingKeys] at h
    simp only [Traced.result_bind, Traced.result_lift] at h
    obtain ⟨v, -, h⟩ := bind_eq_ok.mp h
    obtain ⟨outcome, -, h⟩ := bind_eq_ok.mp h
    obtain ⟨ok, -, h⟩ := bind_eq_ok.mp h
    obtain ⟨ks, hks, h⟩ := bind_eq_ok.mp h
    have ih := failingKeys_sublist hks
    obtain rfl : (if ok then ks else k :: ks) = keys := by simpa using h
    split
    · exact ih.cons k
    · exact ih.cons_cons k

/-- The keys that a check reports are keys of fields. -/
theorem failingKeys_mem {value : Value → Except Fault Value} {fields : Entries} {keys : List Value}
    (h : (failingKeys value fields).result = .ok keys) : ∀ k ∈ keys, k ∈ fields.map Prod.fst :=
  fun _ hk => (failingKeys_sublist h).subset hk

end ArgSchema
