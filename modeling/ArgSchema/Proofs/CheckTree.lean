/-
# The tree of the checks

A validation checks the declared entries, and inside that check every mapping that stands
where nested entries are asked for. So the checks of one validation form a tree, which can be
read off the schema as its author wrote it and the values (`CheckTree.Describes`): a check has the keys of
the entries that fail, and right inside it the checks of its entries in their order.

The records of a validation are those of its tree in post-order, one for each check in which
an entry fails (`validateIn_records`). An entry fails if a check inside it has an entry that
does, so where nothing fails at the top nothing was written below (`CheckTree.Describes.silent`), and the
last record is that of the check at the top.

The checker sees the entries only after they are normalized: what it writes for one field
goes by induction on the plain type (`Plain.recorded`), what it writes for all fields of a
check by induction on the list of them (`trees_of_fields`).

Key definitions: `CheckTree`, `CheckTree.records`, `CheckTree.Describes`, `Outcome.Leaves`.
-/
import ArgSchema.Proofs.Routes

namespace ArgSchema

open Value

/-! ### Trees of checks -/

/-- A check: the keys of the entries that fail, and the checks right inside it. -/
inductive CheckTree where
  | check (failing : List Value) (inside : List CheckTree)

namespace CheckTree

/-- The keys that fail in the check at the top. -/
def failing : CheckTree → List Value
  | .check failing _ => failing

mutual
/-- The records of a tree in post-order, one for each check in which an entry fails. Every
check but the one at the top is by name. -/
def records (mode : Mode) : CheckTree → List Record
  | .check failing inside => recordsOfAll inside ++ if failing = [] then [] else [.failed mode failing]

/-- The records of nested checks, one tree after the other. -/
def recordsOfAll : List CheckTree → List Record
  | [] => []
  | t :: ts => t.records .named ++ recordsOfAll ts
end

theorem recordsOfAll_append : ∀ ts us : List CheckTree,
    recordsOfAll (ts ++ us) = recordsOfAll ts ++ recordsOfAll us
  | [], us => by rw [List.nil_append, recordsOfAll, List.nil_append]
  | t :: ts, us => by
    rw [List.cons_append, recordsOfAll, recordsOfAll, recordsOfAll_append ts us, List.append_assoc]

theorem recordsOfAll_eq_nil : ∀ {ts : List CheckTree}, (∀ t ∈ ts, t.records .named = []) → recordsOfAll ts = []
  | [], _ => by rw [recordsOfAll]
  | t :: ts, h => by
    rw [recordsOfAll, h t List.mem_cons_self, recordsOfAll_eq_nil fun u hu => h u (List.mem_cons_of_mem _ hu),
      List.append_nil]

/-- The record of a check in which an entry fails comes last. -/
theorem records_of_failing (mode : Mode) {tree : CheckTree} (h : tree.failing ≠ []) :
    ∃ inside, tree.records mode = recordsOfAll inside ++ [.failed mode tree.failing] := by
  cases tree with
  | check failing inside =>
    have hne : failing ≠ [] := h
    exact ⟨inside, by rw [records, if_neg hne, CheckTree.failing]⟩

mutual
/-- By name every record of a tree is by name. -/
theorem named_of_records {r : Record} : ∀ {tree : CheckTree}, r ∈ tree.records .named → ∃ keys, r = .failed .named keys
  | .check failing inside, h => by
    rw [records] at h
    rcases List.mem_append.mp h with h | h
    · exact named_of_recordsOfAll h
    · split at h
      · simp at h
      · exact ⟨failing, List.mem_singleton.mp h⟩

theorem named_of_recordsOfAll {r : Record} : ∀ {ts : List CheckTree}, r ∈ recordsOfAll ts →
    ∃ keys, r = .failed .named keys
  | [], h => by simp [recordsOfAll] at h
  | t :: ts, h => by
    rw [recordsOfAll] at h
    rcases List.mem_append.mp h with h | h
    · exact named_of_records h
    · exact named_of_recordsOfAll h
end

end CheckTree

open CheckTree

/-! ### The checks of a validation -/

/-- The check that a value leads to where a type is asked for: the value is a mapping, and the
type declares entries. -/
def nestedCheck? (t v : Value) : Option (Entries × Entries) :=
  match t.nestedEntries?, v.entries? with
  | some inner, some ws => if inner.isEmpty then none else some (inner, ws)
  | _, _ => none

/-- The checks right inside a check of entries, in the order of the entries; `value` gives the
value of an entry. -/
def nestedChecks (value : Value → Value) (es : Entries) : List (Entries × Entries) :=
  es.flatMap fun e => (nestedCheck? e.2.askedType (value e.1)).toList

open Classical in
/-- The keys of the entries that fail, in their order. -/
noncomputable def failingOf (value : Value → Value) (es : Entries) : List Value :=
  (es.filter fun e => Fails e.2 (value e.1)).map Prod.fst

/-- The tree of the checks that a check of entries begins with. -/
inductive CheckTree.Describes : CheckTree → (Value → Value) → Entries → Prop where
  | intro {value : Value → Value} {es : Entries} {inside : List CheckTree}
      (hinside : List.Forall₂ (fun c t => t.Describes (held c.2) c.1) (nestedChecks value es) inside) :
      Describes (.check (failingOf value es) inside) value es

/-- Trees that belong to nested checks, each to its own. -/
abbrev TreesOf : List (Entries × Entries) → List CheckTree → Prop :=
  List.Forall₂ fun c t => t.Describes (held c.2) c.1

/-- Induction on a tree of checks: a property of a check may be shown from the same property of
the checks right inside it. -/
theorem CheckTree.Describes.induction {P : (Value → Value) → Entries → CheckTree → Prop}
    (step : ∀ value es inside,
      List.Forall₂ (fun c t => t.Describes (held c.2) c.1 ∧ P (held c.2) c.1 t) (nestedChecks value es) inside →
      P value es (.check (failingOf value es) inside))
    {value : Value → Value} {es : Entries} {tree : CheckTree} (h : tree.Describes value es) : P value es tree := by
  refine @CheckTree.Describes.rec (fun tree value es _ => P value es tree)
    (fun cs ts _ => List.Forall₂ (fun c t => t.Describes (held c.2) c.1 ∧ P (held c.2) c.1 t) cs ts) ?_ ?_ ?_
    tree value es h
  · exact fun {value es inside} _ ih => step value es inside ih
  · exact .nil
  · exact fun hfirst _ ihfirst ihrest => .cons ⟨hfirst, ihfirst⟩ ihrest

theorem forall₂_mem_right {α β : Type} {R : α → β → Prop} {xs : List α} {ys : List β} (h : List.Forall₂ R xs ys) :
    ∀ y ∈ ys, ∃ x ∈ xs, R x y := by
  intro y hy
  obtain ⟨i, hi, rfl⟩ := List.getElem_of_mem hy
  have hi' : i < xs.length := by rw [h.length_eq]; exact hi
  exact ⟨xs[i], List.getElem_mem hi', h.get hi' hi⟩

theorem forall₂_right_unique {α β : Type} {R S : α → β → Prop} (hR : ∀ x y, R x y → ∀ z, S x z → y = z) :
    ∀ {xs : List α} {ys zs : List β}, List.Forall₂ R xs ys → List.Forall₂ S xs zs → ys = zs
  | [], _, _, .nil, .nil => rfl
  | _ :: _, _, _, .cons hy hys, .cons hz hzs => by rw [hR _ _ hy _ hz, forall₂_right_unique hR hys hzs]

/-- There is one tree of checks only. -/
theorem CheckTree.Describes.unique {value : Value → Value} {es : Entries} {tree tree' : CheckTree} (h : tree.Describes value es)
    (h' : tree'.Describes value es) : tree' = tree := by
  suffices hall : ∀ tree', tree'.Describes value es → tree = tree' from (hall tree' h').symm
  refine Describes.induction (P := fun value es tree => ∀ tree', tree'.Describes value es → tree = tree') ?_ h
  intro value es inside ih tree' h'
  obtain ⟨hinside⟩ := h'
  rw [forall₂_right_unique (fun _ _ hR => hR.2) ih hinside]

/-! ### A failure inside is a failure outside -/

theorem nestedCheck?_some {t v : Value} {c : Entries × Entries} (h : nestedCheck? t v = some c) :
    t.nestedEntries? = some c.1 ∧ v.entries? = some c.2 ∧ c.1 ≠ [] := by
  unfold nestedCheck? at h
  split at h
  · rename_i inner ws ht hv
    by_cases hempty : inner.isEmpty
    · simp [hempty] at h
    · obtain rfl : (inner, ws) = c := by simpa [hempty] using h
      exact ⟨ht, hv, by simpa using hempty⟩
  · simp at h

theorem mem_nestedChecks {value : Value → Value} {es : Entries} {c : Entries × Entries} :
    c ∈ nestedChecks value es ↔ ∃ e ∈ es, nestedCheck? e.2.askedType (value e.1) = some c := by
  simp [nestedChecks]

theorem mem_failingOf {value : Value → Value} {es : Entries} {k : Value} :
    k ∈ failingOf value es ↔ ∃ e ∈ es, Fails e.2 (value e.1) ∧ e.1 = k := by
  simp only [failingOf, List.mem_map, List.mem_filter, decide_eq_true_eq, and_assoc]

/-- An entry fails if a check right inside it has an entry that fails. -/
theorem failing_of_inside {value : Value → Value} {es : Entries} (hplain : ∀ e ∈ es, Plain e.2)
    {c : Entries × Entries} (hc : c ∈ nestedChecks value es) (hinside : failingOf (held c.2) c.1 ≠ []) :
    failingOf value es ≠ [] := by
  obtain ⟨e, he, hcheck⟩ := mem_nestedChecks.mp hc
  obtain ⟨ht, hv, -⟩ := nestedCheck?_some hcheck
  obtain ⟨k, hk⟩ := List.exists_mem_of_ne_nil _ hinside
  obtain ⟨e', he', hfails, rfl⟩ := mem_failingOf.mp hk
  have hkeyed : Entries.Keyed c.1 := nestedEntries?_eq_declared ht ▸ (hplain e he).askedType.keyed
  have hvalue : valueAt c.2 e'.1 = .ok (held c.2 e'.1) := valueAt_eq (hkeyed.hashable e'.1 (List.mem_map_of_mem he'))
  obtain ⟨ks, hpath⟩ := failingPath_cons_iff.mpr ⟨e'.2, held c.2 e'.1, he', hvalue, hfails⟩
  have hfailed : Fails e.2 (value e.1) :=
    .inr ⟨not_null_of_entries hv, .inr ⟨c.1, c.2, _, ht, hv, hpath⟩⟩
  exact List.ne_nil_of_mem (mem_failingOf.mpr ⟨e, he, hfailed, rfl⟩)

/-- **Where nothing fails at the top, nothing is written** at any depth. -/
theorem CheckTree.Describes.silent {value : Value → Value} {es : Entries} {tree : CheckTree} (h : tree.Describes value es)
    (hplain : ∀ e ∈ es, Plain e.2) (hnone : tree.failing = []) (mode : Mode) : tree.records mode = [] := by
  suffices hall : (∀ e ∈ es, Plain e.2) → tree.failing = [] → ∀ mode, tree.records mode = [] from
    hall hplain hnone mode
  refine Describes.induction (P := fun _ es tree =>
    (∀ e ∈ es, Plain e.2) → tree.failing = [] → ∀ mode, tree.records mode = []) ?_ h
  intro value es inside ih hplain hnone mode
  have hnone : failingOf value es = [] := hnone
  have hinside : ∀ t ∈ inside, t.records .named = [] := by
    intro t ht
    obtain ⟨c, hc, hcheck, hsilent⟩ := forall₂_mem_right ih t ht
    obtain ⟨e, he, hentry⟩ := mem_nestedChecks.mp hc
    have hinner := (nestedCheck?_some hentry).1
    have hplain' : ∀ e ∈ c.1, Plain e.2 := nestedEntries?_eq_declared hinner ▸ (hplain e he).askedType.declared
    have hfailing : t.failing = failingOf (held c.2) c.1 := by
      obtain ⟨-⟩ := hcheck
      rfl
    refine hsilent hplain' ?_ .named
    by_contra hne
    exact failing_of_inside hplain hc (hfailing ▸ hne) hnone
  rw [records, recordsOfAll_eq_nil hinside, if_pos hnone, List.nil_append]

/-! ### What a check writes -/

namespace Traced

variable {α β : Type}

@[simp] theorem log_pure (a : α) : (Pure.pure a : Traced α).log = [] := rfl

@[simp] theorem log_lift (r : Except Fault α) : (Traced.lift r).log = [] := rfl

theorem log_bind {x : Traced α} {a : α} (h : x.result = .ok a) (f : α → Traced β) :
    (x >>= f).log = x.log ++ (f a).log := by
  show (Traced.bind x f).log = _
  unfold Traced.bind
  rw [h]

end Traced

theorem log_report (mode : Mode) (keys : List Value) :
    (report mode keys).log = if keys = [] then [] else [.failed mode keys] := by
  cases keys <;> rfl

/-- Null writes nothing, and any other value what the check of its constraint writes. -/
theorem log_fieldResult (v c optional : Value) :
    (fieldResult v (.fieldSpec c optional)).log = if v.isNull then [] else (meets v false c).log := by
  rw [fieldResult, unlessNull]
  split
  · rfl
  · cases h : (meets v false c).result with
    | error fault =>
      show (Traced.bind (meets v false c) _).log = _
      rw [Traced.bind, h]
    | ok b => rw [Traced.log_bind h, Traced.log_pure, List.append_nil]

/-- The fields of a check write one after the other. -/
theorem log_failingKeys {value : Value → Except Fault Value} {w : Value → Value} : ∀ {fields : Entries},
    (∀ f ∈ fields, value f.1 = .ok (w f.1)) →
    (∀ f ∈ fields, (fieldResult (w f.1) f.2).result = .ok (ofBool (passes (w f.1) f.2))) →
    (failingKeys value fields).log = fields.flatMap fun f => (fieldResult (w f.1) f.2).log
  | [], _, _ => by rw [failingKeys]; rfl
  | (k, x) :: rest, hvalue, hfield => by
    have hv := hvalue (k, x) List.mem_cons_self
    have hf := hfield (k, x) List.mem_cons_self
    have hrest := failingKeys_result (fun f hf => hvalue f (List.mem_cons_of_mem _ hf))
      (fun f hf' => hfield f (List.mem_cons_of_mem _ hf'))
    have ih := log_failingKeys (fun f hf => hvalue f (List.mem_cons_of_mem _ hf))
      (fun f hf' => hfield f (List.mem_cons_of_mem _ hf'))
    rw [failingKeys, Traced.log_bind (a := w k) hv, Traced.log_bind hf,
      Traced.log_bind (a := passes (w k) x) (truth_ofBool _), Traced.log_bind hrest, ih]
    simp

/-- A type without entries writes nothing. -/
theorem log_meets_leaf {t : Value} (ht : Plain t) (h : t.nestedEntries? = none) (v : Value) :
    (meets v false t.leafConstraint).log = [] := by
  cases htext : t.text? with
  | some s => simp [leafConstraint_name htext, meets]
  | none =>
    cases hclass : t.class? with
    | some c =>
      obtain rfl := class?_some hclass
      simp [leafConstraint, meets]
    | none => simp [ht.leafConstraint_unknown htext hclass, meets]

theorem log_meets_noMapping {v : Value} (h : v.entries? = none) (fields : Entries) :
    (meets v false (.nested fields)).log = [] := by
  rw [meets, meetsFields, h]
  rfl

theorem log_meets_noFields (v : Value) : (meets v false (.nested [])).log = [] := by
  rw [meets, meetsFields]
  cases v.entries? with
  | none => rfl
  | some ws =>
    simp only [normalizeEntries]
    rfl

/-- Nested fields write what their check does, and behind it the record of that check. -/
theorem log_meets_nested {v : Value} {ws fields fs : Entries} {keys : List Value} {log : List Record}
    (hv : v.entries? = some ws) (hn : normalizeEntries fields = .ok fs) (hne : fields ≠ [])
    (hkeys : failingKeys (valueAt ws) fields = ⟨log, .ok keys⟩) :
    (meets v false (.nested fields)).log = log ++ (report .named keys).log := by
  have hempty : fields.isEmpty = false := by simpa using hne
  have hlog : (failingKeys (valueAt ws) fields).log = log := by rw [hkeys]
  have hresult : (failingKeys (valueAt ws) fields).result = .ok keys := by rw [hkeys]
  rw [meets, meetsFields, hv]
  simp only
  rw [Traced.log_bind (a := fs) hn, hempty, if_neg (by decide), Traced.log_bind hresult, hlog,
    Traced.log_bind (result_report .named keys)]
  simp

/-! ### What is written follows the tree -/

/-- What a field writes that asks for the type: the records of the check that the value leads
to, if there is one. -/
def Recorded (t : Value) : Prop :=
  ∀ c, t.toConstraint = .ok c → ∀ v, Measured v → ∀ b, ∃ trees, TreesOf (nestedCheck? t v).toList trees ∧
    (fieldResult v (.fieldSpec c (ofBool b))).log = recordsOfAll trees

section

variable {w : Value → Value} {es fields : Entries}

/-- The fields of a check write what the trees right inside the check record. -/
theorem trees_of_fields (hw : ∀ k, Measured (w k)) (hes : ∀ e ∈ es, Plain e.2 ∧ Recorded e.2.askedType)
    (hn : List.Forall₂ (fun e f => f.1 = e.1 ∧ e.2.toField = .ok f.2) es fields) :
    ∃ trees, TreesOf (nestedChecks w es) trees ∧
      (fields.flatMap fun f => (fieldResult (w f.1) f.2).log) = recordsOfAll trees := by
  induction hn with
  | nil => exact ⟨[], .nil, rfl⟩
  | @cons e f es fields hfirst _ ih =>
    obtain ⟨hkey, hspec⟩ := hfirst
    obtain ⟨hplain, hrecorded⟩ := hes e List.mem_cons_self
    obtain ⟨trees, htrees, hlog⟩ := ih fun e he => hes e (List.mem_cons_of_mem _ he)
    obtain ⟨c, b, hc, -, hf⟩ := (toField_eq_ok hplain.not_fieldSpec).mp hspec
    obtain ⟨firsts, hfirsts, hfirstLog⟩ := hrecorded c hc (w e.1) (hw e.1) b
    refine ⟨firsts ++ trees, List.rel_append hfirsts htrees, ?_⟩
    rw [List.flatMap_cons, hlog, hkey, hf, hfirstLog, recordsOfAll_append]

/-- The fields that do not pass have the keys of the entries that fail. -/
theorem failingOf_eq (hw : ∀ k, Measured (w k)) (hplain : ∀ e ∈ es, Plain e.2)
    (hn : List.Forall₂ (fun e f => f.1 = e.1 ∧ e.2.toField = .ok f.2) es fields) :
    (fields.filter fun f => !passes (w f.1) f.2).map Prod.fst = failingOf w es := by
  induction hn with
  | nil => rfl
  | @cons e f es fields hfirst _ ih =>
    obtain ⟨hkey, hspec⟩ := hfirst
    have hx := hplain e List.mem_cons_self
    have hfails := passes_field hx hspec hx.askedType.agrees (hw e.1)
    have hrest := ih fun e he => hplain e (List.mem_cons_of_mem _ he)
    unfold failingOf at hrest ⊢
    by_cases h : Fails e.2 (w e.1)
    · simp [hkey, hfails.mpr h, h, hrest]
    · have hpasses : passes (w e.1) f.2 = true := by simpa using mt hfails.mp h
      simp [hkey, hpasses, h, hrest]

/-- A check of the fields of plain entries reports the entries that fail, and writes what the
trees right inside it record. -/
theorem failingKeys_tree (hw : ∀ k, Measured (w k)) (hes : ∀ e ∈ es, Plain e.2 ∧ Recorded e.2.askedType)
    (hn : normalizeEntries es = .ok fields) {value : Value → Except Fault Value}
    (hvalue : ∀ f ∈ fields, value f.1 = .ok (w f.1)) :
    ∃ trees, TreesOf (nestedChecks w es) trees ∧
      failingKeys value fields = ⟨recordsOfAll trees, .ok (failingOf w es)⟩ := by
  have hpairs := normalizeEntries_eq_ok.mp hn
  have hfield : ∀ f ∈ fields, (fieldResult (w f.1) f.2).result = .ok (ofBool (passes (w f.1) f.2)) := by
    intro f hf
    obtain ⟨e, he, -, hspec⟩ := mem_normalizeEntries hn f hf
    exact ((hes e he).1.settled_field hspec).result (hw f.1)
  obtain ⟨trees, htrees, hlog⟩ := trees_of_fields hw hes hpairs
  refine ⟨trees, htrees, ?_⟩
  rw [← hlog, ← log_failingKeys hvalue hfield, ← failingOf_eq hw (fun e he => (hes e he).1) hpairs,
    ← failingKeys_result hvalue hfield]

end

/-- A value that leads to no check has no trees, and nothing to write. -/
theorem recorded_of_none {t v spec : Value} (h : nestedCheck? t v = none) (hlog : (fieldResult v spec).log = []) :
    ∃ trees, TreesOf (nestedCheck? t v).toList trees ∧ (fieldResult v spec).log = recordsOfAll trees := by
  rw [h]
  exact ⟨[], .nil, by rw [hlog, recordsOfAll]⟩

theorem recorded_leaf {t : Value} (ht : Plain t) (h : t.nestedEntries? = none) : Recorded t := by
  intro c hc v _ b
  rw [toConstraint_leaf h] at hc
  obtain rfl : _ = c := by simpa using hc
  have hnone : nestedCheck? t v = none := by rw [nestedCheck?, h]
  have hlog : (fieldResult v (.fieldSpec t.leafConstraint (ofBool b))).log = [] := by
    rw [log_fieldResult, log_meets_leaf ht h, ite_self]
  exact recorded_of_none hnone hlog

theorem recorded_nested {t : Value} {inner : Entries} (ht : Plain t) (h : t.nestedEntries? = some inner)
    (ih : ∀ e ∈ inner, Recorded e.2.askedType) : Recorded t := by
  intro c hc v hv b
  rw [ht.toConstraint_nested h] at hc
  obtain ⟨fields, hn, hc⟩ := bind_eq_ok.mp hc
  obtain rfl : _ = c := by simpa using hc
  obtain rfl := nestedEntries?_eq_declared h
  cases hvs : v.entries? with
  | none =>
    have hnone : nestedCheck? t v = none := by rw [nestedCheck?, h, hvs]
    have hlog : (fieldResult v (.fieldSpec (.nested fields) (ofBool b))).log = [] := by
      rw [log_fieldResult, log_meets_noMapping hvs, ite_self]
    exact recorded_of_none hnone hlog
  | some ws =>
    by_cases hempty : t.declared = []
    · have hnone : nestedCheck? t v = none := by
        rw [nestedCheck?, h, hvs, hempty]
        rfl
      have hlog : (fieldResult v (.fieldSpec (.nested fields) (ofBool b))).log = [] := by
        rw [log_fieldResult, (normalizeEntries_eq_nil hn).mpr hempty, log_meets_noFields, ite_self]
      exact recorded_of_none hnone hlog
    · have hcheck : nestedCheck? t v = some (t.declared, ws) := by
        rw [nestedCheck?, h, hvs]
        simp [hempty]
      have hkeys : ∀ f ∈ fields, valueAt ws f.1 = .ok (held ws f.1) := fun f hf =>
        valueAt_eq ((ht.keyed.normalize hn).hashable f.1 (List.mem_map_of_mem hf))
      obtain ⟨trees, htrees, hfailing⟩ := failingKeys_tree (hv.held hvs)
        (fun e he => ⟨ht.declared e he, ih e he⟩) hn hkeys
      have hne : fields ≠ [] := mt (normalizeEntries_eq_nil hn).mp hempty
      refine ⟨[.check (failingOf (held ws) t.declared) trees], ?_, ?_⟩
      · rw [hcheck]
        exact .cons ⟨htrees⟩ .nil
      · rw [log_fieldResult, not_null_of_entries hvs, if_neg (by decide),
          log_meets_nested hvs (normalizeEntries_idem hn) hne hfailing, log_report, recordsOfAll, recordsOfAll,
          records, List.append_nil]

/-- **A field writes the records of the check inside it.** -/
theorem Plain.recorded {t : Value} (ht : Plain t) : Recorded t :=
  Plain.induction (fun _ ht h => recorded_leaf ht h) (fun _ _ ht h ih => recorded_nested ht h ih) ht

/-! ### Validations -/

/-- The value that stands for a field in values that are given by name or by position; null if
there is none. -/
def Value.given (v key : Value) : Value :=
  match v.entries? with
  | some vs => held vs key
  | none =>
    match v.sequence? with
    | some xs => (xs.get key).toOption.getD null
    | none => null

/-- Whether a mode checks values against a schema at all, given that the schema has fields. -/
def Mode.takes : Mode → Value → Value → Bool
  | .named, v, _ => v.entries?.isSome
  | .positional, v, s => v.sequence?.isSome && !isNamedSchema s

/-- A check of the declared entries writes the records of their tree. -/
theorem checkFields_tree {s : Value} {fields : Entries} {value : Value → Except Fault Value} {w : Value → Value}
    (v : Value) (mode : Mode) (hs : Plain s) (hw : ∀ k, Measured (w k)) (hn : s.toFields = .ok fields)
    (hvalue : ∀ f ∈ fields, value f.1 = .ok (w f.1)) :
    ∃ tree : CheckTree, tree.Describes w s.declared ∧
      checkFields mode v fields value = ⟨tree.records mode, .ok ⟨tree.failing, v, fields, false⟩⟩ := by
  obtain ⟨trees, htrees, hfailing⟩ := failingKeys_tree hw
    (fun e he => ⟨hs.declared e he, (hs.declared e he).askedType.recorded⟩) (hs.toFields_eq.symm.trans hn) hvalue
  refine ⟨.check (failingOf w s.declared) trees, ⟨htrees⟩, ?_⟩
  rw [checkFields_of_ok hfailing, log_report, records]
  rfl

theorem Measured.given {v : Value} (h : Measured v) (key : Value) : Measured (v.given key) := by
  unfold Value.given
  cases hvs : v.entries? with
  | some vs => exact h.held hvs key
  | none =>
    cases hxs : v.sequence? with
    | none => exact measured_null
    | some xs =>
      obtain ⟨w, hw, hm⟩ := h.get hxs key
      simp only [hw]
      exact hm

/-- Values that a mode does not take never reach a field. -/
theorem validateIn_of_not_takes {mode : Mode} {v s : Value} (h : mode.takes v s = false) :
    ∃ message, validateIn mode v s = pure (.structuralError message) := by
  cases mode with
  | named =>
    have hvs : v.entries? = none := by simpa [Mode.takes] using h
    exact ⟨_, validateNamed_none hvs s⟩
  | positional =>
    cases hxs : v.sequence? with
    | none => exact ⟨_, validatePositional_none hxs s⟩
    | some xs =>
      have hmode : isNamedSchema s = true := by simpa [Mode.takes, hxs] using h
      refine ⟨Outcome.missingSpec, ?_⟩
      rw [validateIn, validatePositional, hxs, hmode]
      rfl

/-- Values that a mode takes are checked against the fields, if there are any; what is looked up
is what the values give. -/
theorem validateIn_of_takes {mode : Mode} {v s : Value} {fields : Entries} (hv : Measured v)
    (hn : s.toFields = .ok fields) (hk : Entries.Keyed fields) (h : mode.takes v s = true) :
    ∃ value, (∀ f ∈ fields, value f.1 = .ok (v.given f.1)) ∧ validateIn mode v s =
      if fields.isEmpty then pure (.structuralError Outcome.missingSpec) else checkFields mode v fields value := by
  cases mode with
  | named =>
    obtain ⟨vs, hvs⟩ := Option.isSome_iff_exists.mp h
    refine ⟨valueAt vs, fun f hf => ?_, validateNamed_some hvs hn⟩
    rw [Value.given, hvs]
    exact valueAt_eq (hk.hashable f.1 (List.mem_map_of_mem hf))
  | positional =>
    obtain ⟨hseq, hmode⟩ : v.sequence?.isSome = true ∧ isNamedSchema s = false := by simpa [Mode.takes] using h
    obtain ⟨xs, hxs⟩ := Option.isSome_iff_exists.mp hseq
    refine ⟨xs.get, fun f _ => ?_, validatePositional_some hxs hmode hn⟩
    obtain ⟨w, hw, -⟩ := hv.get hxs f.1
    simp only [Value.given, entries?_of_sequence hxs, hxs, hw]
    rfl

/-- The records that a validation in a mode leaves with its outcome. It checks fields if the mode
takes the values and there are fields; then the records are those of the one tree of its checks
in post-order. Values that reach no field, and valid ones, leave none; otherwise the last record
has the mode and the failed keys of the outcome, and those before it are by name. -/
structure Outcome.Leaves (o : Outcome) (log : List Record) (mode : Mode) (v s : Value) : Prop where
  structural : o.structural = false ↔ mode.takes v s = true ∧ s.declared ≠ []
  tree : o.structural = false → ∃ tree : CheckTree, (∀ t : CheckTree, t.Describes v.given s.declared ↔ t = tree) ∧
    log = tree.records mode ∧ o.failedKeys = tree.failing
  none : o.structural = true ∨ o.isValid = true → log = []
  last : o.structural = false → o.isValid = false → ∃ earlier, log = earlier ++ [.failed mode o.failedKeys] ∧
    ∀ r ∈ earlier, ∃ keys, r = .failed .named keys

theorem leaves_structural {mode : Mode} {v s : Value} (h : ¬ (mode.takes v s = true ∧ s.declared ≠ []))
    (message : String) : (Outcome.structuralError message).Leaves [] mode v s :=
  ⟨iff_of_false (by simp [Outcome.structuralError]) h, fun hs => by simp [Outcome.structuralError] at hs,
    fun _ => rfl, fun hs => by simp [Outcome.structuralError] at hs⟩

theorem leaves_checked {mode : Mode} {v s : Value} {fields : Entries} {tree : CheckTree} (hs : Plain s)
    (htakes : mode.takes v s = true) (hne : s.declared ≠ []) (h : tree.Describes v.given s.declared) :
    (Outcome.mk tree.failing v fields false).Leaves (tree.records mode) mode v s := by
  refine ⟨iff_of_true rfl ⟨htakes, hne⟩, fun _ => ⟨tree, fun t => ⟨fun ht => h.unique ht, ?_⟩, rfl, rfl⟩, ?_, ?_⟩
  · rintro rfl
    exact h
  · rintro (hstructural | hvalid)
    · simp at hstructural
    · exact h.silent hs.declared (List.isEmpty_iff.mp hvalid) mode
  · intro _ hvalid
    have hfailing : tree.failing ≠ [] := by simpa [Outcome.isValid] using hvalid
    obtain ⟨inside, hrecords⟩ := records_of_failing mode hfailing
    exact ⟨recordsOfAll inside, hrecords, fun r hr => named_of_recordsOfAll hr⟩

/-- A validation against a plain schema that has a normal form leaves the records of its checks. -/
theorem validateIn_leaves {s v : Value} {fields : Entries} (hs : Plain s) (hn : s.toFields = .ok fields)
    (hv : Measured v) (mode : Mode) : ∃ log o, validateIn mode v s = ⟨log, .ok o⟩ ∧ o.Leaves log mode v s := by
  obtain ⟨hk, -⟩ := hs.settled_fields hn
  have hempty : fields = [] ↔ s.declared = [] := normalizeEntries_eq_nil (hs.toFields_eq.symm.trans hn)
  cases htakes : mode.takes v s with
  | false =>
    obtain ⟨message, hrun⟩ := validateIn_of_not_takes htakes
    exact ⟨[], _, hrun, leaves_structural (by simp [htakes]) message⟩
  | true =>
    obtain ⟨value, hvalue, hrun⟩ := validateIn_of_takes hv hn hk htakes
    by_cases hdeclared : s.declared = []
    · rw [hempty.mpr hdeclared] at hrun
      exact ⟨[], _, hrun, leaves_structural (by simp [hdeclared]) _⟩
    · obtain ⟨tree, htree, hchecks⟩ := checkFields_tree v mode hs hv.given hn hvalue
      rw [if_neg (by simpa using mt hempty.mp hdeclared), hchecks] at hrun
      exact ⟨_, _, hrun, leaves_checked hs htakes hdeclared htree⟩

/-- **The records of a validation** are those of the tree of its checks in post-order: one for
each check of declared entries in which an entry fails, with the keys that fail, and those inside
before the one around them. -/
theorem validateIn_records {s v : Value} (hs : Plain s) (hms : Measured s) (hv : Measured v) (mode : Mode) :
    ∃ log o, validateIn mode v s = ⟨log, .ok o⟩ ∧ o.Leaves log mode v s := by
  obtain ⟨fields, hn⟩ := hms.toFields_total
  exact validateIn_leaves hs hn hv mode

/-- A mapping in a list: the age in it fails, and with it the first position; the second position
is past the end. The check of the age is recorded first, and by name. -/
theorem validateIn_records_age :
    ∃ log o, validateIn .positional (ofList [ofEntries [(ofText "age", ofInt (-1))]])
        (ofList [ofEntries [(ofText "age", ofText "natural")], ofText "string"]) = ⟨log, .ok o⟩ ∧
      o.Leaves log .positional (ofList [ofEntries [(ofText "age", ofInt (-1))]])
        (ofList [ofEntries [(ofText "age", ofText "natural")], ofText "string"]) ∧
      log = [.failed .named [ofText "age"], .failed .positional [ofInt 0, ofInt 1]] := by
  have hage : Plain (ofEntries [(ofText "age", ofText "natural")]) ∧
      Measured (ofEntries [(ofText "age", ofText "natural")]) :=
    ⟨plain_named ["age"] rfl (by decide) (List.forall_mem_singleton.mpr (.atom _)),
      measured_named ["age"] rfl (List.forall_mem_singleton.mpr (measured_atom ⟨_, rfl⟩))⟩
  have hs : Plain (ofList [ofEntries [(ofText "age", ofText "natural")], ofText "string"]) ∧
      Measured (ofList [ofEntries [(ofText "age", ofText "natural")], ofText "string"]) := plain_ofList
    (List.forall_mem_cons.mpr ⟨hage, List.forall_mem_singleton.mpr ⟨.atom _, measured_atom ⟨_, rfl⟩⟩⟩)
  have hv : Measured (ofList [ofEntries [(ofText "age", ofInt (-1))]]) :=
    ⟨⟨_, rfl⟩, List.forall_mem_singleton.mpr
      (measured_named ["age"] rfl (List.forall_mem_singleton.mpr (measured_atom ⟨_, rfl⟩)))⟩
  obtain ⟨log, o, hrun, hleaves⟩ := validateIn_records hs.1 hs.2 hv .positional
  exact ⟨log, o, hrun, hleaves, (congrArg Traced.log hrun).symm⟩

end ArgSchema
