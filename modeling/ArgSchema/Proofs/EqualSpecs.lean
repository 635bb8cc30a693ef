/-
# Equal specs check alike

Equality of specs ignores in which order nested fields are declared, at every depth, tells keys
apart only by what they are worth, and compares what is not understood as a type by its value.
None of this matters to a check: equal specs have the same outcome on every value, or neither
has one, and mappings fail equal schemas at the same keys (`checks_of_same`).

A check of fields goes through them in their order and stops at the first fault, so two orders
may stop at different faults. What they share is when they do not stop, namely if the check of
each field is decided, and then the fields that pass (`nested_result_iff`). Specs are therefore
compared by the outcomes that they have (`ChecksLike`), fields by those of their specs under
each key (`Entries.ChecksLike`), and the induction on one of two equal specs leads from the
second to the first.

Key definitions: `ChecksLike`, `Entries.ChecksLike`.
-/
import Mathlib.Data.List.Perm.Subperm
import ArgSchema.Proofs.DeclaredContent
import ArgSchema.Proofs.HashCodes
import ArgSchema.Proofs.Relaxing

namespace ArgSchema

open Value

/-- Two specs with the same outcome on every value, unless both stop with a fault. -/
def ChecksLike (a b : Value) : Prop :=
  ∀ v r, (fieldResult v a).result = .ok r ↔ (fieldResult v b).result = .ok r

/-- The same keys, in any order, and specs under each of them that check alike. -/
structure Entries.ChecksLike (fields fields' : Entries) : Prop where
  keys : (fields.map fun f => f.1.key).Perm (fields'.map fun f => f.1.key)
  specs : ∀ f ∈ fields, ∀ f' ∈ fields', f.1.key = f'.1.key → ArgSchema.ChecksLike f.2 f'.2

/-! ### Equal entries -/

theorem Entries.Keyed.nodup {es : Entries} (h : Entries.Keyed es) : (es.map fun e => e.1.key).Nodup := by
  have hdistinct := h.distinct
  rw [List.pairwise_map] at hdistinct
  exact List.pairwise_map.mpr hdistinct

/-- Each entry has an equal one under the same key. -/
theorem exists_same {es' : Entries} : ∀ {es : Entries}, sameEntries es es' = true →
    ∀ e ∈ es, ∃ e' ∈ es', e'.1.key = e.1.key ∧ e.2.same e'.2 = true
  | [], _ => fun e he => by cases he
  | (k, v) :: rest, h => by
    rw [sameEntries, Bool.and_eq_true] at h
    obtain ⟨hfirst, hrest⟩ := h
    intro e he
    rcases List.mem_cons.mp he with rfl | he
    · cases hk : k.key with
      | error fault =>
        rw [hk] at hfirst
        cases hfirst
      | ok key =>
        rw [hk] at hfirst
        cases hw : Entries.find? key es' with
        | none => simp [Except.toOption, hw] at hfirst
        | some w =>
          obtain ⟨e', he', hkey, rfl⟩ := find?_mem hw
          exact ⟨e', he', hkey, by simpa [Except.toOption, hw] using hfirst⟩
    · exact exists_same hrest e he

/-- As many entries that are equal one by one have the same keys: no key is left over. -/
theorem same_keys_perm {es es' : Entries} (hkeys : Entries.Keyed es) (hlength : es.length = es'.length)
    (h : sameEntries es es' = true) : (es.map fun e => e.1.key).Perm (es'.map fun e => e.1.key) := by
  have hsub : (es.map fun e => e.1.key) ⊆ es'.map fun e => e.1.key := by
    intro key hkey
    obtain ⟨e, he, rfl⟩ := List.mem_map.mp hkey
    obtain ⟨e', he', hsame, -⟩ := exists_same h e he
    exact List.mem_map.mpr ⟨e', he', hsame⟩
  refine (hkeys.nodup.subperm hsub).perm_of_length_le ?_
  rw [List.length_map, List.length_map]
  exact Nat.le_of_eq hlength.symm

/-- Equal values under the same key of equal entries. -/
theorem same_of_key {es es' : Entries} (hkeys' : Entries.Keyed es') (h : sameEntries es es' = true)
    {e e' : Value × Value} (he : e ∈ es) (he' : e' ∈ es') (hkey : e.1.key = e'.1.key) : e.2.same e'.2 = true := by
  obtain ⟨e'', he'', hkey'', hsame⟩ := exists_same h e he
  obtain rfl := hkeys'.eq_of_key he'' he' (hkey''.trans hkey)
  exact hsame

/-! ### Fields that check alike -/

theorem ChecksLike.symm {a b : Value} (h : ChecksLike a b) : ChecksLike b a := fun v r => (h v r).symm

/-- Where one of the checks is decided the other one is, in the same way. -/
theorem ChecksLike.decides {a b v : Value} (h : ChecksLike a b) (hv : Decides v a) :
    Decides v b ∧ passes v a = passes v b := by
  have hb := (h v _).mp hv
  have hpasses := passes_of_result hb
  exact ⟨by rw [Decides, hpasses, hb], hpasses.symm⟩

/-- Alike constraints with the same flag check alike. -/
theorem checksLike_of_meets {c c' : Value} {b : Bool}
    (h : ∀ v ok, (meets v false c).result = .ok ok ↔ (meets v false c').result = .ok ok) :
    ChecksLike (.fieldSpec c (ofBool b)) (.fieldSpec c' (ofBool b)) := by
  intro v r
  rw [fieldResult, fieldResult, unlessNull, unlessNull]
  by_cases hnull : v.isNull = true
  · rw [if_pos hnull, if_pos hnull]
  · rw [if_neg hnull, if_neg hnull, Traced.result_bind, Traced.result_bind, bind_eq_ok, bind_eq_ok]
    exact exists_congr fun ok => and_congr_left fun _ => h v ok

namespace Entries.ChecksLike

variable {fields fields' vs : Entries}

theorem symm (h : ChecksLike fields fields') : ChecksLike fields' fields :=
  ⟨h.keys.symm, fun f' hf' f hf hkey => (h.specs f hf f' hf' hkey.symm).symm⟩

theorem exists_field (h : ChecksLike fields fields') {f' : Value × Value} (hf' : f' ∈ fields') :
    ∃ f ∈ fields, f.1.key = f'.1.key := by
  have hmem : f'.1.key ∈ fields.map fun f => f.1.key := h.keys.mem_iff.mpr (List.mem_map_of_mem hf')
  obtain ⟨f, hf, hkey⟩ := List.mem_map.mp hmem
  exact ⟨f, hf, hkey⟩

theorem ne_nil (h : ChecksLike fields fields') (hne : fields ≠ []) : fields' ≠ [] := by
  rintro rfl
  exact hne (List.map_eq_nil_iff.mp h.keys.eq_nil)

/-- Fields that are decided on a mapping: each of the others is, like the one with its key. -/
theorem decides (h : ChecksLike fields fields') (hdecides : ∀ f ∈ fields, Decides (held vs f.1) f.2) :
    ∀ f' ∈ fields', Decides (held vs f'.1) f'.2 ∧
      ∃ f ∈ fields, f.1.key = f'.1.key ∧ passes (held vs f.1) f.2 = passes (held vs f'.1) f'.2 := by
  intro f' hf'
  obtain ⟨f, hf, hkey⟩ := h.exists_field hf'
  have hlike := (h.specs f hf f' hf' hkey).decides (hdecides f hf)
  rw [held_congr hkey] at hlike
  refine ⟨hlike.1, f, hf, hkey, ?_⟩
  rw [held_congr hkey, hlike.2]

theorem passes_all (h : ChecksLike fields fields') (hdecides : ∀ f ∈ fields, Decides (held vs f.1) f.2)
    (hpasses : ∀ f ∈ fields, passes (held vs f.1) f.2 = true) :
    ∀ f' ∈ fields', passes (held vs f'.1) f'.2 = true := by
  intro f' hf'
  obtain ⟨-, f, hf, -, heq⟩ := h.decides hdecides f' hf'
  rw [← heq, hpasses f hf]

/-- The keys that fail are among those that fail the other fields. -/
theorem failing_subset (h : ChecksLike fields fields') (hdecides : ∀ f ∈ fields, Decides (held vs f.1) f.2) :
    ((fields'.filter fun f => !passes (held vs f.1) f.2).map fun f => f.1.key) ⊆
      (fields.filter fun f => !passes (held vs f.1) f.2).map fun f => f.1.key := by
  intro key hmem
  obtain ⟨f', hf', rfl⟩ := List.mem_map.mp hmem
  obtain ⟨hf', hfails⟩ := List.mem_filter.mp hf'
  obtain ⟨-, f, hf, hkey, heq⟩ := h.decides hdecides f' hf'
  exact List.mem_map.mpr ⟨f, List.mem_filter.mpr ⟨hf, by rw [heq]; exact hfails⟩, hkey⟩

end Entries.ChecksLike

/-- The same keys fail, in an order of their own. -/
theorem Entries.ChecksLike.failing_perm {fields fields' vs : Entries} (h : Entries.ChecksLike fields fields')
    (hkeys : Entries.Keyed fields) (hkeys' : Entries.Keyed fields')
    (hdecides : ∀ f ∈ fields, Decides (held vs f.1) f.2) :
    ((fields.filter fun f => !passes (held vs f.1) f.2).map fun f => f.1.key).Perm
      ((fields'.filter fun f => !passes (held vs f.1) f.2).map fun f => f.1.key) := by
  have hdecides' : ∀ f' ∈ fields', Decides (held vs f'.1) f'.2 := fun f' hf' => (h.decides hdecides f' hf').1
  refine (List.perm_ext_iff_of_nodup ?_ ?_).mpr fun key => ?_
  · exact hkeys.nodup.sublist (List.filter_sublist.map _)
  · exact hkeys'.nodup.sublist (List.filter_sublist.map _)
  · exact ⟨fun hmem => h.symm.failing_subset hdecides' hmem, fun hmem => h.failing_subset hdecides hmem⟩

/-! ### Equal specs -/

/-- A check against nested fields ends just if that of each field does, and is passed if there
are fields and each is. -/
theorem nested_result_iff {v : Value} {vs fields : Entries} {ok : Bool} (hvs : v.entries? = some vs)
    (hkeys : Entries.Keyed fields) (hsettled : ∀ f ∈ fields, Settled f.2) :
    (meets v false (.nested fields)).result = .ok ok ↔
      (∀ f ∈ fields, Decides (held vs f.1) f.2) ∧
        (ok = true ↔ fields ≠ [] ∧ ∀ f ∈ fields, passes (held vs f.1) f.2 = true) := by
  have hpass : (!fields.isEmpty && fields.all fun f => passes (held vs f.1) f.2) = true ↔
      fields ≠ [] ∧ ∀ f ∈ fields, passes (held vs f.1) f.2 = true := by
    rw [Bool.and_eq_true, List.all_eq_true, Bool.not_eq_true', List.isEmpty_eq_false_iff]
  constructor
  · intro h
    have hdecides := decides_of_nested hvs hkeys hsettled h
    rw [meets_nested hvs hkeys hsettled hdecides] at h
    exact ⟨hdecides, by rw [← Except.ok.inj h, hpass]⟩
  · rintro ⟨hdecides, hok⟩
    rw [meets_nested hvs hkeys hsettled hdecides, Except.ok.injEq, Bool.eq_iff_iff, hpass, hok]

/-- Nested fields that check alike are met alike. -/
theorem Entries.ChecksLike.nested {v : Value} {fields fields' : Entries} {ok : Bool}
    (h : Entries.ChecksLike fields fields') (hkeys : Entries.Keyed fields) (hkeys' : Entries.Keyed fields')
    (hsettled : ∀ f ∈ fields, Settled f.2) (hsettled' : ∀ f ∈ fields', Settled f.2)
    (hok : (meets v false (.nested fields)).result = .ok ok) : (meets v false (.nested fields')).result = .ok ok := by
  cases hvs : v.entries? with
  | none =>
    rw [meets_nested_none hvs] at hok ⊢
    exact hok
  | some vs =>
    obtain ⟨hdecides, hiff⟩ := (nested_result_iff hvs hkeys hsettled).mp hok
    have hdecides' : ∀ f' ∈ fields', Decides (held vs f'.1) f'.2 := fun f' hf' => (h.decides hdecides f' hf').1
    refine (nested_result_iff hvs hkeys' hsettled').mpr ⟨hdecides', hiff.trans ?_⟩
    constructor
    · exact fun ⟨hne, hpasses⟩ => ⟨h.ne_nil hne, h.passes_all hdecides hpasses⟩
    · exact fun ⟨hne, hpasses⟩ => ⟨h.symm.ne_nil hne, h.symm.passes_all hdecides' hpasses⟩

/-- Texts are equal if they have the same characters. -/
theorem same_text_iff {v v' : Value} {s s' : String} (h : v.text? = some s) (h' : v'.text? = some s') :
    v.same v' = true ↔ s = s' := by
  obtain ⟨kind, rfl⟩ := text?_eq_some h
  obtain ⟨kind', rfl⟩ := text?_eq_some h'
  simp [same, Atom.key]

/-- Equal fields check alike, if specs under the same key do as soon as they are equal. -/
theorem Entries.checksLike_of_same {fields fields' : Entries} (hkeys : Entries.Keyed fields)
    (hkeys' : Entries.Keyed fields') (hlength : fields.length = fields'.length)
    (hsame : sameEntries fields fields' = true)
    (hspecs : ∀ f ∈ fields, ∀ f' ∈ fields', f.2.same f'.2 = true → ArgSchema.ChecksLike f.2 f'.2) :
    Entries.ChecksLike fields fields' :=
  ⟨same_keys_perm hkeys hlength hsame, fun f hf f' hf' hkey =>
    hspecs f hf f' hf' (same_of_key hkeys' hsame hf hf' hkey)⟩

/-- **Equal specs check alike.** -/
theorem Settled.checksLike {a : Value} (ha : Settled a) : ∀ {b : Value}, Settled b → a.same b = true →
    ChecksLike a b := by
  induction ha with
  | @typeName name s hname optional =>
    intro b hb hsame
    cases hb with
    | @typeName name' s' hname' optional' =>
      rw [same, Bool.and_eq_true, same_ofBool, same, beq_iff_eq] at hsame
      obtain ⟨hnames, rfl⟩ := hsame
      obtain rfl := (same_text_iff hname hname').mp hnames
      refine checksLike_of_meets fun v ok => ?_
      rw [meets_typeName, meets_typeName, isOfType, isOfType, hname, hname']
    | _ => simp [same] at hsame
  | instanceOf c optional =>
    intro b hb hsame
    cases hb with
    | instanceOf c' optional' =>
      rw [same, Bool.and_eq_true, same_ofBool, beq_iff_eq] at hsame
      obtain ⟨hclasses, rfl⟩ := hsame
      obtain rfl : c = c' := by simpa [same, Atom.key] using hclasses
      exact fun v r => Iff.rfl
    | _ => simp [same] at hsame
  | unsatisfiable raw optional =>
    intro b hb hsame
    cases hb with
    | unsatisfiable raw' optional' =>
      rw [same, Bool.and_eq_true, same_ofBool, beq_iff_eq] at hsame
      obtain ⟨-, rfl⟩ := hsame
      refine checksLike_of_meets fun v ok => ?_
      rw [meets_unsatisfiable, meets_unsatisfiable]
    | _ => simp [same] at hsame
  | @nested fields hkeys hsettled optional ih =>
    intro b hb hsame
    cases hb with
    | @nested fields' hkeys' hsettled' optional' =>
      rw [same, Bool.and_eq_true, same_ofBool, beq_iff_eq, same, Bool.and_eq_true, beq_iff_eq] at hsame
      obtain ⟨⟨hlength, hentries⟩, rfl⟩ := hsame
      have hlike : Entries.ChecksLike fields fields' :=
        Entries.checksLike_of_same hkeys hkeys' hlength hentries fun f hf f' hf' => ih f hf (hsettled' f' hf')
      refine checksLike_of_meets fun v ok => ?_
      exact ⟨hlike.nested hkeys hkeys' hsettled hsettled', hlike.symm.nested hkeys' hkeys hsettled' hsettled⟩
    | _ => simp [same] at hsame

/-! ### Equal schemas -/

/-- Schemas whose fields check alike have outcomes for the same values, with the same keys. -/
theorem validateNamed_alike {s s' v : Value} {fields fields' : Entries} {o : Outcome} (hs : Plain s) (hs' : Plain s')
    (hn : s.toFields = .ok fields) (hn' : s'.toFields = .ok fields') (h : Entries.ChecksLike fields fields')
    (ho : (validateNamed v s).result = .ok o) :
    ∃ o', (validateNamed v s').result = .ok o' ∧ o'.isValid = o.isValid ∧ o'.structural = o.structural ∧
      (o.failedKeys.map Value.key).Perm (o'.failedKeys.map Value.key) := by
  obtain ⟨hkeys, hsettled⟩ := hs.settled_fields hn
  obtain ⟨hkeys', hsettled'⟩ := hs'.settled_fields hn'
  cases hvs : v.entries? with
  | none =>
    rw [validateNamed_none hvs] at ho ⊢
    exact ⟨o, ho, rfl, rfl, .refl _⟩
  | some vs =>
    by_cases hne : fields = []
    · have hne' : fields' = [] := by
        by_contra hne'
        exact h.symm.ne_nil hne' hne
      rw [validateNamed_some hvs hn, hne] at ho
      rw [validateNamed_some hvs hn', hne']
      exact ⟨o, ho, rfl, rfl, .refl _⟩
    · have hdecides := decides_of_validateNamed hn hkeys hsettled hne hvs ho
      have hdecides' : ∀ f' ∈ fields', Decides (held vs f'.1) f'.2 := fun f' hf' => (h.decides hdecides f' hf').1
      have hperm := h.failing_perm hkeys hkeys' hdecides
      rw [validateNamed_decided hn hkeys hne hvs hdecides] at ho
      obtain rfl := Except.ok.inj ho
      refine ⟨_, validateNamed_decided hn' hkeys' (h.ne_nil hne) hvs hdecides', ?_, rfl, ?_⟩
      · have hempty := hperm.isEmpty_eq
        rw [List.isEmpty_map, List.isEmpty_map] at hempty
        rw [Outcome.isValid, Outcome.isValid, List.isEmpty_map, List.isEmpty_map, hempty]
      · rw [List.map_map, List.map_map]
        exact hperm

/-- **Equal specs of plain schemas have the same outcome on every value**, unless neither has
one, and equal schemas have outcomes for the same values, with the same validity and the same
keys in some order. On measured values there always is an outcome. -/
theorem checks_of_same {s s' : Value} (hs : Plain s) (hs' : Plain s') :
    (∀ a b, SpecIn s a → SpecIn s' b → a.same b = true → ∀ v,
      (∀ r, (isFieldValid v a).result = .ok r ↔ (isFieldValid v b).result = .ok r) ∧
      (Measured v → ∃ ok, (isFieldValid v a).result = .ok (ofBool ok))) ∧
    ∀ fields fields', s.toFields = .ok fields → s'.toFields = .ok fields' →
      (ofEntries fields).same (ofEntries fields') = true → ∀ v,
      ((∃ o, (validateNamed v s).result = .ok o) ↔ ∃ o', (validateNamed v s').result = .ok o') ∧
      (∀ o o', (validateNamed v s).result = .ok o → (validateNamed v s').result = .ok o' →
        o'.isValid = o.isValid ∧ o'.structural = o.structural ∧
        (o.failedKeys.map Value.key).Perm (o'.failedKeys.map Value.key)) ∧
      (Measured v → ∃ o, (validateNamed v s).result = .ok o) := by
  constructor
  · intro a b ha hb hsame v
    have ha := ha.settled hs
    have hb := hb.settled hs'
    rw [ha.isFieldValid_result, hb.isFieldValid_result]
    exact ⟨ha.checksLike hb hsame v, fun hmv => ⟨_, ha.result hmv⟩⟩
  · intro fields fields' hn hn' hsame v
    obtain ⟨hkeys, hsettled⟩ := hs.settled_fields hn
    obtain ⟨hkeys', hsettled'⟩ := hs'.settled_fields hn'
    obtain ⟨hlength, hentries⟩ : fields.length = fields'.length ∧ sameEntries fields fields' = true := by
      simpa [ofEntries, same] using hsame
    have hlike := Entries.checksLike_of_same hkeys hkeys' hlength hentries fun f hf f' hf' =>
      (hsettled f hf).checksLike (hsettled' f' hf')
    refine ⟨⟨?_, ?_⟩, ?_, ?_⟩
    · rintro ⟨o, ho⟩
      obtain ⟨o', ho', -⟩ := validateNamed_alike hs hs' hn hn' hlike ho
      exact ⟨o', ho'⟩
    · rintro ⟨o', ho'⟩
      obtain ⟨o, ho, -⟩ := validateNamed_alike hs' hs hn' hn hlike.symm ho'
      exact ⟨o, ho⟩
    · intro o o' ho ho'
      obtain ⟨o'', ho'', halike⟩ := validateNamed_alike hs hs' hn hn' hlike ho
      obtain rfl := Except.ok.inj (ho'.symm.trans ho'')
      exact halike
    · exact fun hmv => validateNamed_total hmv ⟨fields, hn, hkeys, hsettled⟩

/-- Nested fields in two orders, under the key one and under the key true, which are equal. -/
theorem checks_of_same_reordered : ∃ s s' fields fields',
    s = ofEntries [(ofInt 1, ofEntries [(ofText "x", ofText "string"), (ofText "y", ofText "whole")])] ∧
    s' = ofEntries [(ofBool true, ofEntries [(ofText "y", ofText "whole"), (ofText "x", ofText "string")])] ∧
    s.toFields = .ok fields ∧ s'.toFields = .ok fields' ∧ (ofEntries fields).same (ofEntries fields') = true ∧
    (∀ f ∈ fields, ∀ f' ∈ fields', ∀ v r,
      (isFieldValid v f.2).result = .ok r ↔ (isFieldValid v f'.2).result = .ok r) ∧
    ∀ v o o', (validateNamed v s).result = .ok o → (validateNamed v s').result = .ok o' →
      o'.isValid = o.isValid := by
  have hsingle : ∀ {k x : Value} {key : Key}, k.key = .ok key → Plain x → Plain (ofEntries [(k, x)]) :=
    fun hk hx => .mapping ⟨List.forall_mem_singleton.mpr ⟨_, hk⟩, List.pairwise_singleton _ _⟩
      (List.forall_mem_singleton.mpr hx)
  have hs : Plain (ofEntries [(ofInt 1, ofEntries [(ofText "x", ofText "string"), (ofText "y", ofText "whole")])]) := by
    refine hsingle (key_ofInt 1) (plain_named ["x", "y"] rfl (by decide) fun e he => ?_)
    rcases List.mem_pair.mp he with rfl | rfl <;> exact .atom _
  have hs' : Plain (ofEntries [(ofBool true,
      ofEntries [(ofText "y", ofText "whole"), (ofText "x", ofText "string")])]) := by
    have hkey : (ofBool true).key = .ok [.number 1] := rfl
    refine hsingle hkey (plain_named ["y", "x"] rfl (by decide) fun e he => ?_)
    rcases List.mem_pair.mp he with rfl | rfl <;> exact .atom _
  have hsame : (Value.fieldSpec (.nested [(ofText "x", .fieldSpec (.typeName (ofText "string")) (ofBool false)),
      (ofText "y", .fieldSpec (.typeName (ofText "whole")) (ofBool false))]) (ofBool false)).same
      (.fieldSpec (.nested [(ofText "y", .fieldSpec (.typeName (ofText "whole")) (ofBool false)),
      (ofText "x", .fieldSpec (.typeName (ofText "string")) (ofBool false))]) (ofBool false)) = true := by
    simp [same, sameEntries, same_ofBool, Entries.find?, ofText, Value.key, Atom.key, hasKey, Except.toOption]
  have hfields : (ofEntries [(ofInt 1, .fieldSpec (.nested [
        (ofText "x", .fieldSpec (.typeName (ofText "string")) (ofBool false)),
        (ofText "y", .fieldSpec (.typeName (ofText "whole")) (ofBool false))]) (ofBool false))]).same
      (ofEntries [(ofBool true, .fieldSpec (.nested [
        (ofText "y", .fieldSpec (.typeName (ofText "whole")) (ofBool false)),
        (ofText "x", .fieldSpec (.typeName (ofText "string")) (ofBool false))]) (ofBool false))]) = true := by
    have hfound : ∀ x, Entries.find? [.number (1 : Int)] [(ofBool true, x)] = some x := fun x => rfl
    simp only [ofEntries, same, sameEntries, key_ofInt, Except.toOption, Option.bind_some, hfound, hsame]
    rfl
  obtain ⟨hspecs, hschemas⟩ := checks_of_same hs hs'
  refine ⟨_, _, _, _, rfl, rfl, rfl, rfl, hfields, ?specs, fun v o o' ho ho' => ?valid⟩
  case specs =>
    intro f hf f' hf' v
    refine (hspecs f.2 f'.2 (.field rfl hf) (.field rfl hf') ?_ v).1
    obtain rfl := List.mem_singleton.mp hf
    obtain rfl := List.mem_singleton.mp hf'
    exact hsame
  case valid => exact ((hschemas _ _ rfl rfl hfields v).2.1 o o' ho ho').1

end ArgSchema
