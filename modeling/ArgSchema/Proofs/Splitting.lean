/-
# A schema in two parts

The check of a field looks at no other field, and neither does the clause that tells of it. So the
entries of a schema may be split in two, each part in the order that it has there, and a mapping is
validated against the whole as it is against the parts (`validateNamed_split`): an outcome is there
if both parts have one, it is valid if both are, its failed keys are theirs in the order of the
schema, and its summary is made of the clauses that the parts have for them.

Interleaved entries have interleaved normal forms (`Interleaves.fields`), and from there on failed
keys are a matter of filtering the fields (`validateNamed_reported`).

Key definitions: `Interleaves`, `Outcome.reported`, `Outcome.Joins`, `Outcome.TellsOf`.
-/
import ArgSchema.Proofs.Positions
import ArgSchema.Proofs.Relaxing

namespace ArgSchema

open Value

/-! ### Lists put together -/

/-- The third list is the first two put together, each in its own order. -/
inductive Interleaves {α : Type} : List α → List α → List α → Prop where
  | nil : Interleaves [] [] []
  | left {x : α} {xs ys zs : List α} (h : Interleaves xs ys zs) : Interleaves (x :: xs) ys (x :: zs)
  | right {y : α} {xs ys zs : List α} (h : Interleaves xs ys zs) : Interleaves xs (y :: ys) (y :: zs)

namespace Interleaves

variable {α β : Type} {xs ys zs : List α}

theorem swap (h : Interleaves xs ys zs) : Interleaves ys xs zs := by
  induction h with
  | nil => exact .nil
  | left _ ih => exact .right ih
  | right _ ih => exact .left ih

/-- One list behind the other. -/
theorem append : ∀ xs ys : List α, Interleaves xs ys (xs ++ ys)
  | [], [] => .nil
  | [], _ :: ys => .right (append [] ys)
  | _ :: xs, ys => .left (append xs ys)

theorem mem_iff (h : Interleaves xs ys zs) {x : α} : x ∈ zs ↔ x ∈ xs ∨ x ∈ ys := by
  induction h with
  | nil => simp
  | left _ ih => rw [List.mem_cons, List.mem_cons, ih, or_assoc]
  | right _ ih => rw [List.mem_cons, List.mem_cons, ih, or_left_comm]

theorem sublist (h : Interleaves xs ys zs) : xs.Sublist zs := by
  induction h with
  | nil => exact .slnil
  | left _ ih => exact ih.cons_cons _
  | right _ ih => exact ih.cons _

theorem isEmpty_eq (h : Interleaves xs ys zs) : zs.isEmpty = (xs.isEmpty && ys.isEmpty) := by
  cases h with
  | nil => rfl
  | left _ => rfl
  | right _ => rw [List.isEmpty_cons, List.isEmpty_cons, Bool.and_false]

theorem map (f : α → β) (h : Interleaves xs ys zs) : Interleaves (xs.map f) (ys.map f) (zs.map f) := by
  induction h with
  | nil => exact .nil
  | left _ ih => exact .left ih
  | right _ ih => exact .right ih

theorem filter (p : α → Bool) (h : Interleaves xs ys zs) :
    Interleaves (xs.filter p) (ys.filter p) (zs.filter p) := by
  induction h with
  | nil => exact .nil
  | @left x xs ys zs _ ih =>
    cases hp : p x with
    | true => simpa only [List.filter_cons_of_pos hp] using ih.left
    | false => simpa [hp] using ih
  | @right y xs ys zs _ ih =>
    cases hp : p y with
    | true => simpa only [List.filter_cons_of_pos hp] using ih.right
    | false => simpa [hp] using ih

end Interleaves

/-! ### Entries put together -/

section

variable {es₁ es₂ es : Entries}

/-- Interleaved entries have interleaved normal forms. -/
theorem Interleaves.fields (h : Interleaves es₁ es₂ es) : ∀ {fields : Entries}, normalizeEntries es = .ok fields →
    ∃ fields₁ fields₂, normalizeEntries es₁ = .ok fields₁ ∧ normalizeEntries es₂ = .ok fields₂ ∧
      Interleaves fields₁ fields₂ fields := by
  induction h with
  | nil =>
    intro fields hn
    obtain rfl : [] = fields := Except.ok.inj hn
    exact ⟨[], [], rfl, rfl, .nil⟩
  | @left e es₁ es₂ es _ ih =>
    intro fields hn
    rw [normalizeEntries] at hn
    obtain ⟨spec, hspec, hn⟩ := bind_eq_ok.mp hn
    obtain ⟨rest, hrest, hn⟩ := bind_eq_ok.mp hn
    obtain rfl : (e.1, spec) :: rest = fields := Except.ok.inj hn
    obtain ⟨fields₁, fields₂, h₁, h₂, hfields⟩ := ih hrest
    exact ⟨(e.1, spec) :: fields₁, fields₂, by rw [normalizeEntries, hspec, ok_bind, h₁, ok_bind], h₂, hfields.left⟩
  | @right e es₁ es₂ es _ ih =>
    intro fields hn
    rw [normalizeEntries] at hn
    obtain ⟨spec, hspec, hn⟩ := bind_eq_ok.mp hn
    obtain ⟨rest, hrest, hn⟩ := bind_eq_ok.mp hn
    obtain rfl : (e.1, spec) :: rest = fields := Except.ok.inj hn
    obtain ⟨fields₁, fields₂, h₁, h₂, hfields⟩ := ih hrest
    exact ⟨fields₁, (e.1, spec) :: fields₂, h₁, by rw [normalizeEntries, hspec, ok_bind, h₂, ok_bind], hfields.right⟩

/-- If both parts have a normal form the whole has one. -/
theorem Interleaves.fields_total (h : Interleaves es₁ es₂ es) {fields₁ fields₂ : Entries}
    (h₁ : normalizeEntries es₁ = .ok fields₁) (h₂ : normalizeEntries es₂ = .ok fields₂) :
    ∃ fields, normalizeEntries es = .ok fields ∧ Interleaves fields₁ fields₂ fields := by
  have hspec₁ := exists_normalizeEntries_iff.mp ⟨fields₁, h₁⟩
  have hspec₂ := exists_normalizeEntries_iff.mp ⟨fields₂, h₂⟩
  obtain ⟨fields, hn⟩ := exists_normalizeEntries_iff.mpr fun e he => (h.mem_iff.mp he).elim (hspec₁ e) (hspec₂ e)
  obtain ⟨gs₁, gs₂, hg₁, hg₂, hfields⟩ := h.fields hn
  obtain rfl := Except.ok.inj (hg₁.symm.trans h₁)
  obtain rfl := Except.ok.inj (hg₂.symm.trans h₂)
  exact ⟨fields, hn, hfields⟩

theorem Entries.Keyed.sublist (hk : Entries.Keyed es) (h : es₁.Sublist es) : Entries.Keyed es₁ :=
  ⟨fun x hx => hk.hashable x ((h.map Prod.fst).subset hx), hk.distinct.sublist (h.map Prod.fst)⟩

/-- A mapping that has some of the entries of a plain one is plain. -/
theorem Plain.part {s t : Value} (hs : Plain s) (hes : s.entries? = some es) (ht : t.entries? = some es₁)
    (h : es₁.Sublist es) : Plain t := by
  have hdeclared := declared_of_entries hes
  cases t with
  | mapping kind id entries =>
    obtain rfl : entries = es₁ := Option.some.inj ht
    exact .mapping ((hdeclared ▸ hs.keyed).sublist h) fun e he => hs.declared e (hdeclared ▸ h.subset he)
  | _ => simp [entries?] at ht

end

/-! ### What is reported of fields -/

namespace Outcome

/-- The outcome of a mapping whose fields are all decided. -/
def reported (v : Value) (vs fields : Entries) : Outcome :=
  ⟨(fields.filter fun f => !passes (held vs f.1) f.2).map Prod.fst, v, fields, false⟩

open Classical in
/-- The clause of a failed key, from the part of the schema that the key stands in. -/
noncomputable def clauseOfParts (o₁ o₂ : Outcome) (key : Value) : Except Fault String :=
  if key ∈ o₁.failedKeys then o₁.clauseFor key else o₂.clauseFor key

/-- An outcome and those of the two parts of its schema, where `keys` are the keys of the whole.
It is valid if both are, its failed keys are theirs in the order of `keys`, and its summary is made
of the clauses that the parts have for these keys. -/
structure Joins (o o₁ o₂ : Outcome) (keys : List Value) : Prop where
  structural : o.structural = false ∧ o₁.structural = false ∧ o₂.structural = false
  isValid : o.isValid = (o₁.isValid && o₂.isValid)
  merged : Interleaves o₁.failedKeys o₂.failedKeys o.failedKeys
  ordered : o.failedKeys.Sublist keys
  summary : o.errorString = (do
    let clauses ← o.failedKeys.mapM (clauseOfParts o₁ o₂)
    .ok (ofText (joinWith ", " clauses)))

/-- Whether an entry fails, and what clause would tell of it, follows from the entry and the value
that the mapping holds for it. -/
structure TellsOf (o : Outcome) (vs : Entries) (e : Value × Value) : Prop where
  fails : e.1 ∈ o.failedKeys ↔ (isFieldValid (held vs e.1) e.2).result = .ok (ofBool false)
  clause : o.clauseFor e.1 = (do Outcome.clause .named (held vs e.1) e.1 (← e.2.toField))

end Outcome

section

variable {v : Value} {vs fields fields₁ fields₂ : Entries}

theorem mem_reported {k : Value} : k ∈ (Outcome.reported v vs fields).failedKeys ↔
    ∃ f ∈ fields, passes (held vs f.1) f.2 = false ∧ f.1 = k := by
  simp [Outcome.reported, and_assoc]

/-- The clause of a field is made of its key, its spec and the value that is held for it. -/
theorem clauseFor_reported (hvs : v.entries? = some vs) (hkeys : Entries.Keyed fields) {f : Value × Value}
    (hf : f ∈ fields) :
    (Outcome.reported v vs fields).clauseFor f.1 = Outcome.clause .named (held vs f.1) f.1 f.2 := by
  have hget : (Outcome.reported v vs fields).get f.1 = .ok (held vs f.1) := by
    rw [Outcome.get, Outcome.reported, hvs]
    exact valueAt_eq (hkeys.hashable f.1 (List.mem_map_of_mem hf))
  have hmode : (Outcome.reported v vs fields).mode = .named := by
    rw [Outcome.mode, Outcome.reported, hvs]
    rfl
  have hlookup : lookup? (Outcome.reported v vs fields).fields f.1 = .ok (some f.2) := hkeys.lookup hf
  rw [Outcome.clauseFor, hget, ok_bind, hlookup, ok_bind, hmode]

/-- **Reports of interleaved fields are put together from those of the parts.** -/
theorem Interleaves.joins (h : Interleaves fields₁ fields₂ fields) (hvs : v.entries? = some vs)
    (hkeys : Entries.Keyed fields) : (Outcome.reported v vs fields).Joins (Outcome.reported v vs fields₁)
      (Outcome.reported v vs fields₂) (fields.map Prod.fst) := by
  have hmerged : Interleaves (Outcome.reported v vs fields₁).failedKeys (Outcome.reported v vs fields₂).failedKeys
      (Outcome.reported v vs fields).failedKeys := (h.filter _).map _
  have hclauses : ∀ k ∈ (Outcome.reported v vs fields).failedKeys, (Outcome.reported v vs fields).clauseFor k =
      Outcome.clauseOfParts (Outcome.reported v vs fields₁) (Outcome.reported v vs fields₂) k := by
    intro k hk
    obtain ⟨f, hf, hfails, rfl⟩ := mem_reported.mp hk
    rw [clauseFor_reported hvs hkeys hf, Outcome.clauseOfParts]
    split
    · rename_i hfirst
      obtain ⟨g, hg, -, hgf⟩ := mem_reported.mp hfirst
      obtain rfl := hkeys.eq_of_key (h.mem_iff.mpr (.inl hg)) hf (by rw [hgf])
      rw [clauseFor_reported hvs (hkeys.sublist h.sublist) hg]
    · rename_i hfirst
      have hsecond : f ∈ fields₂ := (h.mem_iff.mp hf).resolve_left fun hg => hfirst (mem_reported.mpr ⟨f, hg, hfails, rfl⟩)
      rw [clauseFor_reported hvs (hkeys.sublist h.swap.sublist) hsecond]
  refine ⟨⟨rfl, rfl, rfl⟩, hmerged.isEmpty_eq, hmerged, List.filter_sublist.map _, ?_⟩
  rw [← mapM_congr hclauses]
  rfl

/-- A decided field is told of by what its entry and its value say. -/
theorem tellsOf_reported (hvs : v.entries? = some vs) (hkeys : Entries.Keyed fields) {e f : Value × Value}
    (hf : f ∈ fields) (hdecides : Decides (held vs f.1) f.2) (hkey : f.1 = e.1) (hspec : e.2.toField = .ok f.2) :
    (Outcome.reported v vs fields).TellsOf vs e := by
  refine ⟨?_, ?_⟩
  · have hresult : (isFieldValid (held vs e.1) e.2).result = .ok (ofBool (passes (held vs f.1) f.2)) := by
      rw [isFieldValid, hspec, ← hkey, Traced.lift_ok, pure_bind]
      exact hdecides
    rw [hresult, mem_reported]
    constructor
    · rintro ⟨g, hg, hfails, hgk⟩
      obtain rfl := hkeys.eq_of_key hg hf (by rw [hgk, hkey])
      rw [hfails]
    · intro h
      have hfails : passes (held vs f.1) f.2 = false := by simpa [ofBool] using h
      exact ⟨f, hf, hfails, hkey⟩
  · rw [hspec, ok_bind, ← hkey, clauseFor_reported hvs hkeys hf]

end

/-! ### Validating by name -/

/-- **Validating a mapping by name** ends just if the schema has a normal form and all its fields are
decided, and then with what is reported of them. -/
theorem validateNamed_reported {s v : Value} {es vs : Entries} {o : Outcome} (hs : Plain s) (hes : s.entries? = some es)
    (hne : es ≠ []) (hvs : v.entries? = some vs) : (validateNamed v s).result = .ok o ↔
      ∃ fields, normalizeEntries es = .ok fields ∧ (∀ f ∈ fields, Decides (held vs f.1) f.2) ∧
        o = Outcome.reported v vs fields := by
  have htoFields := toFields_of_entries hes
  constructor
  · intro h
    obtain ⟨fields, hn⟩ : ∃ fields, s.toFields = .ok fields := by
      rw [validateNamed, hvs] at h
      simp only [Traced.result_bind, Traced.result_lift] at h
      obtain ⟨fields, hn, -⟩ := bind_eq_ok.mp h
      exact ⟨fields, hn⟩
    obtain ⟨hkeys, hsettled⟩ := hs.settled_fields hn
    have hn' : normalizeEntries es = .ok fields := htoFields.symm.trans hn
    have hne' : fields ≠ [] := mt (normalizeEntries_eq_nil hn').mp hne
    have hdecides := decides_of_validateNamed hn hkeys hsettled hne' hvs h
    refine ⟨fields, hn', hdecides, ?_⟩
    rw [validateNamed_decided hn hkeys hne' hvs hdecides] at h
    exact (Except.ok.inj h).symm
  · rintro ⟨fields, hn, hdecides, rfl⟩
    have hn' : s.toFields = .ok fields := htoFields.trans hn
    exact validateNamed_decided hn' (hs.settled_fields hn').1 (mt (normalizeEntries_eq_nil hn).mp hne) hvs hdecides

/-- **A schema in two parts.** A mapping is validated against a schema as it is against the two
parts that its entries are split into, neither of them empty: it ends in an outcome if both of these
do, and that outcome is put together from theirs. What it tells of an entry follows from the entry
and its value. With measured plain data there is an outcome, and it has a summary. -/
theorem validateNamed_split {s s₁ s₂ v : Value} {es es₁ es₂ vs : Entries} (hs : Plain s) (hes : s.entries? = some es)
    (hes₁ : s₁.entries? = some es₁) (hes₂ : s₂.entries? = some es₂) (hsplit : Interleaves es₁ es₂ es)
    (hne₁ : es₁ ≠ []) (hne₂ : es₂ ≠ []) (hvs : v.entries? = some vs) :
    ((∃ o, (validateNamed v s).result = .ok o) ↔
      (∃ o₁, (validateNamed v s₁).result = .ok o₁) ∧ ∃ o₂, (validateNamed v s₂).result = .ok o₂) ∧
    (∀ o o₁ o₂, (validateNamed v s).result = .ok o → (validateNamed v s₁).result = .ok o₁ →
      (validateNamed v s₂).result = .ok o₂ →
        o.Joins o₁ o₂ (es.map Prod.fst) ∧ ∀ e ∈ es, o.TellsOf vs e) ∧
    (Measured s → Measured v → ∃ o text, (validateNamed v s).result = .ok o ∧ o.errorString = .ok (ofText text)) := by
  have hs₁ : Plain s₁ := hs.part hes hes₁ hsplit.sublist
  have hs₂ : Plain s₂ := hs.part hes hes₂ hsplit.swap.sublist
  have hne : es ≠ [] := by
    rintro rfl
    exact hne₁ (List.sublist_nil.mp hsplit.sublist)
  have hkeyed : Entries.Keyed es := declared_of_entries hes ▸ hs.keyed
  refine ⟨⟨?_, ?_⟩, ?_, ?_⟩
  · rintro ⟨o, ho⟩
    obtain ⟨fields, hn, hdecides, -⟩ := (validateNamed_reported hs hes hne hvs).mp ho
    obtain ⟨fields₁, fields₂, hn₁, hn₂, hfields⟩ := hsplit.fields hn
    exact ⟨⟨_, (validateNamed_reported hs₁ hes₁ hne₁ hvs).mpr
        ⟨fields₁, hn₁, fun f hf => hdecides f (hfields.mem_iff.mpr (.inl hf)), rfl⟩⟩,
      ⟨_, (validateNamed_reported hs₂ hes₂ hne₂ hvs).mpr
        ⟨fields₂, hn₂, fun f hf => hdecides f (hfields.mem_iff.mpr (.inr hf)), rfl⟩⟩⟩
  · rintro ⟨⟨o₁, ho₁⟩, o₂, ho₂⟩
    obtain ⟨fields₁, hn₁, hdecides₁, -⟩ := (validateNamed_reported hs₁ hes₁ hne₁ hvs).mp ho₁
    obtain ⟨fields₂, hn₂, hdecides₂, -⟩ := (validateNamed_reported hs₂ hes₂ hne₂ hvs).mp ho₂
    obtain ⟨fields, hn, hfields⟩ := hsplit.fields_total hn₁ hn₂
    exact ⟨_, (validateNamed_reported hs hes hne hvs).mpr
      ⟨fields, hn, fun f hf => (hfields.mem_iff.mp hf).elim (hdecides₁ f) (hdecides₂ f), rfl⟩⟩
  · intro o o₁ o₂ ho ho₁ ho₂
    obtain ⟨fields, hn, hdecides, rfl⟩ := (validateNamed_reported hs hes hne hvs).mp ho
    obtain ⟨fields₁, hn₁, -, rfl⟩ := (validateNamed_reported hs₁ hes₁ hne₁ hvs).mp ho₁
    obtain ⟨fields₂, hn₂, -, rfl⟩ := (validateNamed_reported hs₂ hes₂ hne₂ hvs).mp ho₂
    obtain ⟨gs₁, gs₂, hg₁, hg₂, hfields⟩ := hsplit.fields hn
    obtain rfl := Except.ok.inj (hg₁.symm.trans hn₁)
    obtain rfl := Except.ok.inj (hg₂.symm.trans hn₂)
    have hkeys : Entries.Keyed fields := hkeyed.normalize hn
    refine ⟨keys_normalizeEntries hn ▸ hfields.joins hvs hkeys, fun e he => ?_⟩
    obtain ⟨f, hf, hkey, hspec⟩ := mem_of_normalizeEntries hn e he
    exact tellsOf_reported hvs hkeys hf (hdecides f hf) hkey hspec
  · intro hms hmv
    obtain ⟨fields, hn, hk, hsettled⟩ := hs.fits hms
    obtain ⟨o, ho⟩ := validateNamed_total hmv ⟨fields, hn, hk, hsettled⟩
    obtain ⟨text, htext⟩ := Request.errorString_text (r := .namedStrictly v s) ho hmv hn hk
      fun f hf => (hsettled f hf).described
    exact ⟨o, text, ho, htext⟩

/-- Three entries, of which the middle one is a part for itself: its number is negative, and behind it
the empty text is no whole number. -/
theorem validateNamed_split_middle :
    let a := (ofText "a", ofText "string")
    let b := (ofText "b", ofText "natural")
    let c := (ofText "c", ofText "whole")
    let v := ofEntries [(ofText "c", ofText ""), (ofText "a", ofText "x"), (ofText "b", ofInt (-1))]
    ∃ o o₁ o₂, (validateNamed v (ofEntries [a, b, c])).result = .ok o ∧
      (validateNamed v (ofEntries [a, c])).result = .ok o₁ ∧ (validateNamed v (ofEntries [b])).result = .ok o₂ ∧
      o.Joins o₁ o₂ [ofText "a", ofText "b", ofText "c"] ∧
      o₁.failedKeys = [ofText "c"] ∧ o₂.failedKeys = [ofText "b"] ∧ o.failedKeys = [ofText "b", ofText "c"] ∧
      o.errorString = .ok (ofText "named argument b is not a \"natural\", missing named argument c") := by
  intro a b c v
  have hs : Plain (ofEntries [a, b, c]) := by
    refine plain_named ["a", "b", "c"] rfl (by decide) ?_
    exact List.forall_mem_cons.mpr ⟨.atom _, List.forall_mem_cons.mpr ⟨.atom _, List.forall_mem_singleton.mpr (.atom _)⟩⟩
  have hsplit : Interleaves [a, c] [b] [a, b, c] := .left (.right (.left .nil))
  have h₁ : (ofEntries [a, c]).entries? = some [a, c] := rfl
  have h₂ : (ofEntries [b]).entries? = some [b] := rfl
  have hv : v.entries? = some _ := rfl
  obtain ⟨-, hjoins, -⟩ := validateNamed_split hs rfl h₁ h₂ hsplit (by simp) (by simp) hv
  exact ⟨_, _, _, rfl, rfl, rfl, (hjoins _ _ _ rfl rfl rfl).1, rfl, rfl, rfl, rfl⟩

end ArgSchema
