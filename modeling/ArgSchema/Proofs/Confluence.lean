/-
# Spellings of one schema

A schema can be spelled in many ways: as shorthand, in full, with parts that are normalized
already, or as a schema object. However many parts of it, at whatever depth, are spelled
differently, it has the same normal form, field by field and in the same order, or the
same fault (`toFields_respelled`). Normalizing a second time is one such spelling.

What a part stands for depends on where it stands: a mapping in the place of an entry may
be a spec in full, the same mapping under "isa" is one of nested fields. So a respelling is
indexed by the place, and each place has its own normal form (`SameNormal`).

Key definitions: `Respells`, `SameNormal`.
-/
import ArgSchema.Proofs.NormalForm
import Mathlib.Logic.Relation

namespace ArgSchema

open Value

/-- Shorthand for a spec: neither a mapping that holds "isa" nor a field spec, which is a
spec in full already. -/
def Value.IsShorthand : Value → Prop
  | .mapping _ _ es => Entries.field? "isa" es = none
  | .fieldSpec .. => False
  | _ => True

/-- A spec in full. -/
def specInFull (id : Nat) (x : Value) : Value :=
  .mapping .dict id [(ofText "isa", x), (ofText "optional", ofBool false)]

/-- One part of a schema, at any depth, is spelled in another way. -/
inductive Respells : Place → Value → Value → Prop where
  /-- A mapping, a list or a tuple is normalized. -/
  | normalized {s : Value} {fields : Entries} {id : Nat} (hs : s.entries?.isSome ∨ s.listItems?.isSome)
      (h : s.toFields = .ok fields) : Respells .whole s (.mapping .dict id fields)
  /-- A schema object is built from the whole. -/
  | built {s : Value} {fields : Entries} {id : Nat} {path : Option String} (hs : s.text? = none)
      (h : Schema.build s path = .ok ⟨s, fields, path⟩) : Respells .whole s (.schema id s fields)
  /-- Shorthand is written in full. -/
  | inFull {x : Value} {id : Nat} (hx : x.IsShorthand) : Respells .entry x (specInFull id x)
  /-- An entry is normalized. -/
  | field {x spec : Value} (h : x.toField = .ok spec) : Respells .entry x spec
  /-- A type is replaced by its constraint, a mapping by its nested fields. -/
  | constraint {t c : Value} (h : t.toConstraint = .ok c) : Respells .type t c
  /-- A mapping under "isa" is normalized. -/
  | normalizedType {kind : MappingKind} {id id' : Nat} {es fields : Entries}
      (h : normalizeEntries es = .ok fields) : Respells .type (.mapping kind id es) (.mapping .dict id' fields)
  /-- A schema object is built from a mapping under "isa". -/
  | builtType {kind : MappingKind} {id id' : Nat} {es fields : Entries} {path : Option String}
      (h : Schema.build (.mapping kind id es) path = .ok ⟨.mapping kind id es, fields, path⟩) :
      Respells .type (.mapping kind id es) (.schema id' (.mapping kind id es) fields)
  /-- An entry of the whole, or of a mapping under "isa". -/
  | inMapping {p : Place} {kind : MappingKind} {id id' : Nat} {pre post : Entries} {k x x' : Value}
      (hp : p ≠ .entry) (h : Respells .entry x x') :
      Respells p (.mapping kind id (pre ++ (k, x) :: post)) (.mapping kind id' (pre ++ (k, x') :: post))
  /-- An entry of nested fields that are written as shorthand. -/
  | inShorthand {kind : MappingKind} {id id' : Nat} {pre post : Entries} {k x x' : Value}
      (hisa : Entries.field? "isa" (pre ++ (k, x) :: post) = none) (h : Respells .entry x x') :
      Respells .entry (.mapping kind id (pre ++ (k, x) :: post)) (.mapping kind id' (pre ++ (k, x') :: post))
  /-- The type of a spec in full. -/
  | inIsa {kind : MappingKind} {id id' : Nat} {pre post : Entries} {k t t' : Value}
      (hpre : Entries.field? "isa" pre = none) (hk : k.key = .ok [.text "isa"]) (h : Respells .type t t') :
      Respells .entry (.mapping kind id (pre ++ (k, t) :: post)) (.mapping kind id' (pre ++ (k, t') :: post))
  /-- An item of a list or a tuple. -/
  | inList {kind : CollectionKind} {id id' : Nat} {pre post : List Value} {x x' : Value}
      (hkind : kind.isListOrTuple) (h : Respells .entry x x') :
      Respells .whole (.collection kind id (pre ++ x :: post)) (.collection kind id' (pre ++ x' :: post))
  /-- What a schema object is built from, wherever it stands. -/
  | inSchema {p : Place} {id id' : Nat} {raw raw' : Value} {fields fields' : Entries} {path path' : Option String}
      (hb : Schema.build raw path = .ok ⟨raw, fields, path⟩)
      (hb' : Schema.build raw' path' = .ok ⟨raw', fields', path'⟩) (h : Respells .whole raw raw') :
      Respells p (.schema id raw fields) (.schema id' raw' fields')

/-- Two values have the same normal form where they stand. -/
def SameNormal : Place → Value → Value → Prop
  | .whole, s, s' => s'.toFields = s.toFields
  | .entry, x, x' => x'.toField = x.toField
  | .type, t, t' => t'.toConstraint = t.toConstraint

/-! ### One place at a time -/

theorem normalizeEntries_congr {k x x' : Value} (h : x'.toField = x.toField) (post : Entries) :
    ∀ pre : Entries, normalizeEntries (pre ++ (k, x') :: post) = normalizeEntries (pre ++ (k, x) :: post)
  | [] => by rw [List.nil_append, List.nil_append, normalizeEntries, normalizeEntries, h]
  | (k', y) :: pre => by
    rw [List.cons_append, List.cons_append, normalizeEntries, normalizeEntries, normalizeEntries_congr h post pre]

theorem indexed_append : ∀ (pre : List Value) (i : Nat) (post : List Value),
    indexed i (pre ++ post) = indexed i pre ++ indexed (i + pre.length) post
  | [], _, _ => rfl
  | x :: pre, i, post => by
    have ih := indexed_append pre (i + 1) post
    have hlen : i + 1 + pre.length = i + (x :: pre).length := by rw [List.length_cons]; omega
    rw [List.cons_append, indexed, ih, hlen]
    rfl

theorem normalizeItems_congr {x x' : Value} (h : x'.toField = x.toField) (pre post : List Value) (i : Nat) :
    normalizeItems i (pre ++ x' :: post) = normalizeItems i (pre ++ x :: post) := by
  rw [normalizeItems_eq, normalizeItems_eq, indexed_append, indexed_append]
  exact normalizeEntries_congr h _ _

/-- Only its keys decide which entry of a mapping is found. -/
theorem find?_append (k : Key) : ∀ es fs : Entries,
    Entries.find? k (es ++ fs) = (Entries.find? k es).or (Entries.find? k fs)
  | [], _ => rfl
  | (x, v) :: es, fs => by
    rw [List.cons_append, Entries.find?, Entries.find?, find?_append k es fs]
    split <;> rfl

theorem find?_cons_of_ne {k : Key} {x v : Value} (h : x.hasKey k = false) (es : Entries) :
    Entries.find? k ((x, v) :: es) = Entries.find? k es := by
  rw [Entries.find?, h]
  rfl

theorem find?_cons_self {k : Key} {x v : Value} (h : x.hasKey k = true) (es : Entries) :
    Entries.find? k ((x, v) :: es) = some v := by
  rw [Entries.find?, h]
  rfl

/-- A value that is respelled leaves a key that is not there not there. -/
theorem find?_none_congr {key : Key} {pre post : Entries} {k x : Value} (x' : Value)
    (h : Entries.find? key (pre ++ (k, x) :: post) = none) :
    Entries.find? key (pre ++ (k, x') :: post) = none := by
  rw [find?_append, Option.or_eq_none_iff] at h ⊢
  refine ⟨h.1, ?_⟩
  cases hk : k.hasKey key with
  | true =>
    rw [find?_cons_self hk] at h
    simp at h
  | false =>
    rw [find?_cons_of_ne hk] at h ⊢
    exact h.2

theorem build_fields {raw : Value} {fields : Entries} {path : Option String}
    (h : Schema.build raw path = .ok ⟨raw, fields, path⟩) (ht : raw.text? = none) :
    raw.toFields = .ok fields := by
  unfold Schema.build at h
  obtain ⟨fs, hfs, he⟩ := bind_eq_ok.mp h
  have hf : fs = fields := by simpa using he
  simpa [ht, hf] using hfs

theorem normalized_idem {s : Value} {fields : Entries} (hs : s.entries?.isSome ∨ s.listItems?.isSome)
    (h : s.toFields = .ok fields) : normalizeEntries fields = .ok fields := by
  cases s with
  | mapping kind id es => exact normalizeEntries_idem h
  | collection kind id items =>
    have hk : kind.isListOrTuple := by simpa [entries?, listItems?] using hs
    rw [toFields, if_pos hk, normalizeItems_eq] at h
    exact normalizeEntries_idem h
  | _ => simp [entries?, listItems?] at hs

theorem toField_specInFull {x : Value} (hx : x.IsShorthand) (id : Nat) : (specInFull id x).toField = x.toField := by
  have hisa : Entries.field? "isa" [(ofText "isa", x), (ofText "optional", ofBool false)] = some x :=
    find?_cons_self (by rw [hasKey_of_key (key_ofText "isa")]; rfl) _
  have hoptional : optionalFlag [(ofText "isa", x), (ofText "optional", ofBool false)] = ofBool false := by
    have h : Entries.field? "optional" [(ofText "isa", x), (ofText "optional", ofBool false)] =
        some (ofBool false) := by
      rw [Entries.field?, find?_cons_of_ne (by rw [hasKey_of_key (key_ofText "isa")]; rfl)]
      exact find?_cons_self (by rw [hasKey_of_key (key_ofText "optional")]; rfl) _
    rw [optionalFlag, h]
    rfl
  have hfull : (specInFull id x).toField = (do .ok (.fieldSpec (← x.toConstraint) (ofBool false))) := by
    rw [specInFull, toField, constraintOfIsa_eq, hisa, hoptional]
    rfl
  rw [hfull]
  cases x with
  | mapping kind id es =>
    have hnone : Entries.field? "isa" es = none := hx
    rw [toField, constraintOfIsa_eq, hnone, toConstraint]
    simp only [Option.map_none]
    cases normalizeEntries es <;> rfl
  | fieldSpec isa optional => exact hx.elim
  | _ => rfl

theorem toConstraint_idem {t c : Value} (h : t.toConstraint = .ok c) : c.toConstraint = .ok c := by
  cases t with
  | mapping kind id es =>
    obtain ⟨fields, -, hc⟩ := bind_eq_ok.mp h
    obtain rfl : Value.nested fields = c := by simpa using hc
    rfl
  | schema id raw fields =>
    obtain rfl : Value.nested fields = c := by simpa [toConstraint] using h
    rfl
  | atom a =>
    cases a with
    | text kind s => cases kind <;> (obtain rfl := Except.ok.inj h; rfl)
    | _ => obtain rfl := Except.ok.inj h; rfl
  | _ => obtain rfl := Except.ok.inj h; rfl

theorem toField_idem {x spec : Value} (h : x.toField = .ok spec) : spec.toField = .ok spec := by
  obtain ⟨isa, optional, rfl⟩ := toField_fieldSpec h
  rfl

theorem toField_shorthand {kind : MappingKind} {id : Nat} {es : Entries} (h : Entries.field? "isa" es = none) :
    (Value.mapping kind id es).toField = (do .ok (.fieldSpec (.nested (← normalizeEntries es)) (ofBool false))) := by
  rw [toField, constraintOfIsa_eq, h]
  rfl

theorem field?_optional_congr {pre post : Entries} {k t t' : Value} (hk : k.key = .ok [.text "isa"]) :
    Entries.field? "optional" (pre ++ (k, t') :: post) = Entries.field? "optional" (pre ++ (k, t) :: post) := by
  have hne : k.hasKey [.text "optional"] = false := by
    rw [hasKey_of_key hk]
    rfl
  rw [Entries.field?, Entries.field?, find?_append, find?_append, find?_cons_of_ne hne, find?_cons_of_ne hne]

theorem field?_isa_middle {pre post : Entries} {k t : Value} (hpre : Entries.field? "isa" pre = none)
    (hk : k.key = .ok [.text "isa"]) : Entries.field? "isa" (pre ++ (k, t) :: post) = some t := by
  have heq : k.hasKey [.text "isa"] = true := by
    rw [hasKey_of_key hk]
    rfl
  rw [Entries.field?, find?_append, find?_cons_self heq]
  rw [Entries.field?] at hpre
  rw [hpre]
  rfl

/-- What is spelled in another way as a whole is no bare type name, nor becomes one. -/
theorem Respells.text_none {s s' : Value} (h : Respells .whole s s') : s.text? = none ∧ s'.text? = none := by
  cases h with
  | normalized hs _ => cases s <;> simp_all [entries?, listItems?, text?]
  | built hs _ => exact ⟨hs, rfl⟩
  | inMapping => exact ⟨rfl, rfl⟩
  | inList => exact ⟨rfl, rfl⟩
  | inSchema => exact ⟨rfl, rfl⟩

/-! ### Any number of places -/

/-- **One part spelled in another way** leaves the normal form as it is. -/
theorem Respells.sameNormal {p : Place} {s s' : Value} (h : Respells p s s') : SameNormal p s s' := by
  induction h with
  | normalized hs h => exact (normalized_idem hs h).trans h.symm
  | built hs h => exact (build_fields h hs).symm
  | inFull hx => exact toField_specInFull hx _
  | field h => exact (toField_idem h).trans h.symm
  | constraint h => exact (toConstraint_idem h).trans h.symm
  | normalizedType h =>
    show toConstraint _ = toConstraint _
    rw [toConstraint, toConstraint, h, normalizeEntries_idem h]
  | builtType h =>
    have hn : normalizeEntries _ = .ok _ := build_fields h rfl
    show toConstraint _ = toConstraint _
    rw [toConstraint, toConstraint, hn]
    rfl
  | @inMapping p kind id id' pre post k x x' hp h ih =>
    have hn := normalizeEntries_congr (k := k) ih post pre
    cases p with
    | whole => exact hn
    | entry => exact absurd rfl hp
    | type =>
      show toConstraint _ = toConstraint _
      rw [toConstraint, toConstraint, hn]
  | inShorthand hisa h ih =>
    show toField _ = toField _
    rw [toField_shorthand hisa, toField_shorthand (find?_none_congr _ hisa), normalizeEntries_congr ih]
  | @inIsa kind id id' pre post k t t' hpre hk h ih =>
    have ht : t'.toConstraint = t.toConstraint := ih
    show toField _ = toField _
    rw [toField, toField, constraintOfIsa_eq, constraintOfIsa_eq, field?_isa_middle hpre hk,
      field?_isa_middle hpre hk, optionalFlag, optionalFlag, field?_optional_congr hk, Option.map_some,
      Option.map_some, ht]
  | inList hkind h ih =>
    show toFields _ = toFields _
    rw [toFields, toFields, if_pos hkind, if_pos hkind, normalizeItems_congr ih]
  | @inSchema p id id' raw raw' fields fields' path path' hb hb' h ih =>
    -- a schema object is read by its fields alone, and both were built from the same normal form
    obtain ⟨ht, ht'⟩ := h.text_none
    have hfields : fields' = fields := by
      have hraw : raw'.toFields = raw.toFields := ih
      rw [build_fields hb ht, build_fields hb' ht'] at hraw
      exact Except.ok.inj hraw
    subst hfields
    cases p <;> rfl

/-- **Confluence of normalizing**: however many parts of a schema, at whatever depth, are
spelled in another way, it normalizes to the same fields in the same order. -/
theorem toFields_respelled {s s' : Value} (h : Relation.ReflTransGen (Respells .whole) s s') :
    s'.toFields = s.toFields := by
  induction h with
  | refl => rfl
  | tail _ hstep ih => exact hstep.sameNormal.trans ih

/-- A mapping under "isa" that has a field called "isa" is normalized, and then the entry around it. -/
theorem toFields_respelled_isa :
    (ofEntries [(ofText "a", .fieldSpec (.nested
        [(ofText "isa", .fieldSpec (.typeName (ofText "string")) (ofBool false))]) (ofBool false))]).toFields =
      (ofEntries [(ofText "a", ofEntries [(ofText "isa", ofEntries [(ofText "isa", ofText "string")])])]).toFields := by
  have hisa : (Value.ofText "isa").key = .ok [.text "isa"] := key_ofText "isa"
  have htype : Respells .type (ofEntries [(ofText "isa", ofText "string")])
      (ofEntries [(ofText "isa", .fieldSpec (.typeName (ofText "string")) (ofBool false))]) :=
    .normalizedType rfl
  have hentry := @Respells.inIsa .dict 0 0 [] [] _ _ _ rfl hisa htype
  have hfirst := @Respells.inMapping .whole .dict 0 0 [] [] (ofText "a") _ _ (by decide) hentry
  have hfield : Respells .entry
      (ofEntries [(ofText "isa", ofEntries [(ofText "isa", .fieldSpec (.typeName (ofText "string")) (ofBool false))])])
      (.fieldSpec (.nested [(ofText "isa", .fieldSpec (.typeName (ofText "string")) (ofBool false))]) (ofBool false)) :=
    .field rfl
  have hsecond := @Respells.inMapping .whole .dict 0 0 [] [] (ofText "a") _ _ (by decide) hfield
  exact toFields_respelled (.tail (.single hfirst) hsecond)

end ArgSchema
