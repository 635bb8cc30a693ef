/-
# Schemas and keywords of a guard

What a guard checks may be spelled as a mapping, as keywords or as both. Keywords that are written
over the entries of a mapping keep them in place and go behind them where they are new
(`overridden_insertAll`). The guard by the entries so merged is the guard by the mapping and the
keywords, if there is one (`guard_merged`). There may be none though the merged entries have a normal
form: the mapping is normalized by itself, with the entries that a keyword overrides.

Keywords alone spell the mapping of them, unless one is called "schema". It is taken for the schema
itself, so a parameter of this name cannot be guarded by it: in place of a field it gives the fields
that it declares, mostly none (`guard_keywords`).

Key definitions: `Entries.Overridden`, `SchemaKeyword`, `WithoutSchema`.
-/
import ArgSchema.Proofs.StackedGuards

namespace ArgSchema

open Value

/-! ### Keywords as entries -/

namespace Arguments

variable {name : String} {x : Value} {keywords : Arguments}

theorem entries_cons (a : String × Value) (keywords : Arguments) :
    Arguments.entries (a :: keywords) = (ofText a.1, a.2) :: keywords.entries := rfl

theorem lookup_cons (n : String) (x : Value) (keywords : Arguments) :
    List.lookup name ((n, x) :: keywords) = if n = name then some x else keywords.lookup name := by
  rw [List.lookup_cons]
  by_cases hn : n = name
  · simp [hn]
  · rw [if_neg hn, beq_false_of_ne (Ne.symm hn)]

theorem field?_entries (name : String) : ∀ keywords : Arguments,
    Entries.field? name keywords.entries = keywords.lookup name
  | [] => rfl
  | (n, x) :: rest => by
    have ih := field?_entries name rest
    unfold Entries.field? at ih ⊢
    rw [entries_cons, Entries.find?, hasKey_of_key (key_ofText n), ih, lookup_cons]
    simp

theorem keyed_entries (hnames : (keywords.map Prod.fst).Nodup) : Entries.Keyed keywords.entries :=
  keyed_named (keywords.map Prod.fst) (by simp [Arguments.entries]) hnames

theorem plain_toValue (hnames : (keywords.map Prod.fst).Nodup) (hplain : ∀ a ∈ keywords, Plain a.2) :
    Plain keywords.toValue := by
  refine .mapping (keyed_entries hnames) fun e he => ?_
  obtain ⟨a, ha, rfl⟩ := List.mem_map.mp he
  exact hplain a ha

theorem keyed_fields {fields : Entries} (hnames : (keywords.map Prod.fst).Nodup)
    (hn : keywords.toValue.toFields = .ok fields) : Entries.Keyed fields :=
  (keyed_entries hnames).normalize hn

theorem lookup_of_not_mem (h : name ∉ keywords.map Prod.fst) : keywords.lookup name = none := by
  refine List.lookup_eq_none_iff.mpr fun a ha => bne_iff_ne.mpr ?_
  rintro rfl
  exact h (List.mem_map_of_mem ha)

theorem without_cons (a : String × Value) (keywords : Arguments) :
    Arguments.without name (a :: keywords) = bif a.1 == name then keywords else a :: keywords.without name :=
  List.eraseP_cons

theorem lookup_without : ∀ {keywords : Arguments}, (keywords.map Prod.fst).Nodup →
    (keywords.without name).lookup name = none
  | [], _ => rfl
  | (n, x) :: rest, h => by
    obtain ⟨hnew, hrest⟩ := List.nodup_cons.mp h
    by_cases hn : n = name
    · obtain rfl := hn
      rw [without_cons, beq_self_eq_true, cond_true]
      exact lookup_of_not_mem hnew
    · rw [without_cons, beq_false_of_ne hn, cond_false, lookup_cons, if_neg hn, lookup_without hrest]

theorem nodup_without (name : String) (hnames : (keywords.map Prod.fst).Nodup) : ((keywords.without name).map Prod.fst).Nodup :=
  (List.eraseP_sublist.map _).nodup hnames

/-- An argument and those without it, put together. -/
theorem interleaves_without : ∀ {keywords : Arguments}, keywords.lookup name = some x →
    Interleaves [(name, x)] (keywords.without name) keywords
  | (n, y) :: rest, h => by
    rw [lookup_cons] at h
    by_cases hn : n = name
    · obtain rfl := hn
      obtain rfl : y = x := by simpa using h
      rw [without_cons, beq_self_eq_true, cond_true]
      exact .left (.append [] rest)
    · rw [if_neg hn] at h
      rw [without_cons, beq_false_of_ne hn, cond_false]
      exact .right (interleaves_without h)

end Arguments

/-! ### A mapping and keywords -/

/-- Entries with keywords written over them. The keys stay in place, and the new names follow in the
order of the keywords; of two values under one key that of the keyword is found. -/
structure Entries.Overridden (es : Entries) (keywords : Arguments) (merged : Entries) : Prop where
  keys : merged.map Prod.fst = es.map Prod.fst ++
    (keywords.filter fun a => (Entries.field? a.1 es).isNone).map fun a => ofText a.1
  value : ∀ k, Entries.find? k merged = (Entries.find? k keywords.entries).or (Entries.find? k es)

theorem overridden_insertAll : ∀ {keywords : Arguments} {es merged : Entries}, (keywords.map Prod.fst).Nodup →
    Entries.insertAll es keywords.entries = .ok merged → es.Overridden keywords merged
  | [], es, merged, _, h => by
    obtain rfl : es = merged := Except.ok.inj h
    exact ⟨by simp, fun k => rfl⟩
  | (name, x) :: rest, es, merged, hnames, h => by
    obtain ⟨hnew, hrest⟩ := List.nodup_cons.mp hnames
    rw [Arguments.entries_cons, Entries.insertAll, key_ofText, ok_bind] at h
    have ih := overridden_insertAll hrest h
    have hne : ∀ a ∈ rest, name ≠ a.1 := fun a ha he => hnew (List.mem_map.mpr ⟨a, ha, he.symm⟩)
    have hfind := fun k => find?_insert (v := x) k (key_ofText name) es
    have hfilter : (rest.filter fun a => (Entries.field? a.1 (Entries.insert [.text name] (ofText name) x es)).isNone) =
        rest.filter fun a => (Entries.field? a.1 es).isNone := by
      refine List.filter_congr fun a ha => ?_
      rw [Entries.field?, Entries.field?, hfind, if_neg (by simpa using hne a ha)]
    refine ⟨?_, fun k => ?_⟩
    · rw [ih.keys, hfilter, List.filter_cons]
      cases hname : Entries.field? name es with
      | some y =>
        obtain ⟨e, he, hkey, -⟩ := find?_mem hname
        rw [keys_insert_of_mem ⟨e, he, hkey⟩]
        simp
      | none =>
        rw [insert_of_not_mem fun e he hkey => ?_]
        · simp
        · obtain ⟨v, hv⟩ := find?_of_mem (List.mem_map_of_mem he) hkey
          rw [Entries.field?, hv] at hname
          cases hname
    · rw [ih.value, hfind, Arguments.entries_cons, Entries.find?, hasKey_of_key (key_ofText name)]
      by_cases hk : [.text name] = k
      · obtain rfl := hk
        have hnone : Entries.find? [.text name] (Arguments.entries rest) = none :=
          (Arguments.field?_entries name rest).trans (Arguments.lookup_of_not_mem hnew)
        simp [hnone]
      · simp [hk]

section

variable {m : Value} {es merged : Entries} {keywords : Arguments}

/-- What a key found before is still there in what was written over, unless a keyword overrides it. -/
theorem Entries.Overridden.kept (h : es.Overridden keywords merged) (hkeys : Entries.Keyed es) {e : Value × Value}
    (he : e ∈ es) (hfree : ∀ a ∈ keywords, e.1.key ≠ .ok [.text a.1]) : ∃ e' ∈ merged, e'.2 = e.2 := by
  obtain ⟨k, hk⟩ := hkeys.hashable e.1 (List.mem_map_of_mem he)
  have hnone : Entries.find? k keywords.entries = none := by
    cases hfind : Entries.find? k keywords.entries with
    | none => rfl
    | some y =>
      obtain ⟨e', he', hkey, -⟩ := find?_mem hfind
      obtain ⟨a, ha, rfl⟩ := List.mem_map.mp he'
      exact absurd (hk.trans (hkey.symm.trans (key_ofText a.1))) (hfree a ha)
  have hfound : Entries.find? k merged = some e.2 := by
    rw [h.value, hnone, Option.none_or, hkeys.found he hk]
  obtain ⟨e', he', -, hvalue⟩ := find?_mem hfound
  exact ⟨e', he', hvalue⟩

/-- The value of every keyword is there. -/
theorem Entries.Overridden.given (h : es.Overridden keywords merged) (hnames : (keywords.map Prod.fst).Nodup)
    {a : String × Value} (ha : a ∈ keywords) : ∃ e' ∈ merged, e'.2 = a.2 := by
  have hmem : (ofText a.1, a.2) ∈ keywords.entries := List.mem_map_of_mem ha
  have hfound : Entries.find? [.text a.1] merged = some a.2 := by
    rw [h.value, (Arguments.keyed_entries hnames).found hmem (key_ofText a.1), Option.some_or]
  obtain ⟨e', he', -, hvalue⟩ := find?_mem hfound
  exact ⟨e', he', hvalue⟩

/-- Entries and keywords have normal forms just if the merged entries have one, and the entries that
a keyword overrides as well. -/
theorem Entries.Overridden.normalizes_iff (h : es.Overridden keywords merged) (hkeys : Entries.Keyed es)
    (hnames : (keywords.map Prod.fst).Nodup) (hmerged : Entries.insertAll es keywords.entries = .ok merged) :
    ((∃ base, normalizeEntries es = .ok base) ∧ ∃ others, normalizeEntries keywords.entries = .ok others) ↔
      (∃ fields, normalizeEntries merged = .ok fields) ∧
        ∀ e ∈ es, (∃ a ∈ keywords, e.1.key = .ok [.text a.1]) → ∃ spec, e.2.toField = .ok spec := by
  simp only [exists_normalizeEntries_iff]
  constructor
  · rintro ⟨hes, hnew⟩
    refine ⟨fun e he => ?_, fun e he _ => hes e he⟩
    rcases mem_insertAll hmerged he with he | ⟨f, hf, hv⟩
    · exact hes e he
    · exact hv ▸ hnew f hf
  · rintro ⟨hall, hoverridden⟩
    refine ⟨fun e he => ?_, fun e he => ?_⟩
    · by_cases hkey : ∃ a ∈ keywords, e.1.key = .ok [.text a.1]
      · exact hoverridden e he hkey
      · obtain ⟨e', he', hv⟩ := h.kept hkeys he fun a ha hk => hkey ⟨a, ha, hk⟩
        exact hv ▸ hall e' he'
    · obtain ⟨a, ha, rfl⟩ := List.mem_map.mp he
      obtain ⟨e', he', hv⟩ := h.given hnames ha
      have hspec := hall e' he'
      rwa [hv] at hspec

variable {β : Type}

/-- The fields of a guard are merged from those of the schema and of the keywords that are left. -/
theorem guard_of_take {schema? base? : Option Value} {rest : Arguments}
    (htake : takeSchema schema? keywords = .ok (base?, rest)) (f : Callable β) : guard schema? keywords f = (do
      let base ← baseFields base?
      let others ← rest.toValue.toFields
      .ok (guardWith (← Entries.insertAll base others) f)) := by
  rw [guard, guardFields, htake, ok_bind]
  dsimp only
  cases baseFields base? with
  | error fault => rfl
  | ok base => cases rest.toValue.toFields <;> rfl

theorem takeSchema_of_free (hfree : keywords.lookup "schema" = none) (schema? : Option Value) :
    takeSchema schema? keywords = .ok (schema?, keywords) := by
  simp [takeSchema, hfree]

theorem guard_some (hfree : keywords.lookup "schema" = none) (f : Callable β) : guard (some m) keywords f = (do
    let base ← m.toFields
    let others ← keywords.toValue.toFields
    .ok (guardWith (← Entries.insertAll base others) f)) := by
  rw [guard_of_take (takeSchema_of_free hfree _), baseFields_some]

theorem exists_guard_some_iff (hnames : (keywords.map Prod.fst).Nodup) (hfree : keywords.lookup "schema" = none)
    (f : Callable β) : (∃ g, guard (some m) keywords f = .ok g) ↔
      (∃ base, m.toFields = .ok base) ∧ ∃ others, keywords.toValue.toFields = .ok others := by
  rw [guard_some hfree]
  constructor
  · rintro ⟨g, h⟩
    obtain ⟨base, hbase, h⟩ := bind_eq_ok.mp h
    obtain ⟨others, hothers, -⟩ := bind_eq_ok.mp h
    exact ⟨⟨base, hbase⟩, others, hothers⟩
  · rintro ⟨⟨base, hbase⟩, others, hothers⟩
    obtain ⟨fields, hfields⟩ := (Arguments.keyed_fields hnames hothers).insertAll_total base
    exact ⟨guardWith fields f, by rw [hbase, ok_bind, hothers, ok_bind, hfields, ok_bind]⟩

/-- Where a mapping and keywords have normal forms, merging these gives that of the merged entries. -/
theorem toFields_merged {base others : Entries} (hm : m.entries? = some es)
    (hmerged : Entries.insertAll es keywords.entries = .ok merged) (hbase : m.toFields = .ok base)
    (hothers : keywords.toValue.toFields = .ok others) :
    (ofEntries merged).toFields = Entries.insertAll base others := by
  have hothers : normalizeEntries keywords.entries = .ok others := hothers
  have hcommute := normalizeEntries_insertAll ((toFields_of_entries hm).symm.trans hbase) hothers
  rwa [hmerged, ok_bind] at hcommute

/-- **A guard by a mapping and keywords is the guard by the merged mapping.** This holds of every
mapping that has a normal form and of all keywords, none of them called "schema", that have one: the
two guards make the same function of any function, and the fields that it checks are those of the
mapping with those of the keywords written over them. There is a guard by the mapping and the keywords
just if there is one by the merged mapping and the entries that a keyword overrides normalize too. -/
theorem guard_merged (hm : m.entries? = some es) (hkeys : Entries.Keyed es) (hnames : (keywords.map Prod.fst).Nodup)
    (hfree : keywords.lookup "schema" = none) (f : Callable β) :
    ∃ merged, Entries.insertAll es keywords.entries = .ok merged ∧ es.Overridden keywords merged ∧
      (∀ base others, m.toFields = .ok base → keywords.toValue.toFields = .ok others →
        ∃ fields, (ofEntries merged).toFields = .ok fields ∧ Entries.insertAll base others = .ok fields ∧
          guard (some m) keywords f = .ok (guardWith fields f)) ∧
      (∀ g, guard (some m) keywords f = .ok g → guard (some (ofEntries merged)) [] f = .ok g) ∧
      ((∃ g, guard (some m) keywords f = .ok g) ↔ (∃ g, guard (some (ofEntries merged)) [] f = .ok g) ∧
        ∀ e ∈ es, (∃ a ∈ keywords, e.1.key = .ok [.text a.1]) → ∃ spec, e.2.toField = .ok spec) := by
  obtain ⟨merged, hmerged⟩ := (Arguments.keyed_entries hnames).insertAll_total es
  have hoverridden := overridden_insertAll hnames hmerged
  refine ⟨merged, hmerged, hoverridden, fun base others hbase hothers => ?_, fun g hg => ?_, ?_⟩
  · obtain ⟨fields, hfields⟩ := (Arguments.keyed_fields hnames hothers).insertAll_total base
    refine ⟨fields, (toFields_merged hm hmerged hbase hothers).trans hfields, hfields, ?_⟩
    rw [guard_some hfree, hbase, ok_bind, hothers, ok_bind, hfields, ok_bind]
  · rw [guard_some hfree] at hg
    obtain ⟨base, hbase, hg⟩ := bind_eq_ok.mp hg
    obtain ⟨others, hothers, hg⟩ := bind_eq_ok.mp hg
    rw [guard_schema, toFields_merged hm hmerged hbase hothers, hg]
  · rw [exists_guard_some_iff hnames hfree, exists_guard_iff, toFields_of_entries hm]
    exact hoverridden.normalizes_iff hkeys hnames hmerged

end

/-- A nested field is overridden by a type name, and a new name stands before it among the keywords.
The failed keys come in the order of the mapping, and the new one after them. -/
theorem guard_merged_nested :
    let m := ofEntries [(ofText "a", ofEntries [(ofText "b", ofText "string")]), (ofText "n", ofText "string")]
    let keywords : Arguments := [("z", ofText "string"), ("a", ofText "whole")]
    let merged := [(ofText "a", ofText "whole"), (ofText "n", ofText "string"), (ofText "z", ofText "string")]
    let f : Callable (List Value) := {
      name := "f", doc := "", coroutine := false
      signature := [⟨"a", .standard, none⟩, ⟨"n", .standard, none⟩, ⟨"z", .standard, none⟩]
      body := fun call => ⟨[.loading "f"], .ok call.positions⟩ }
    ∃ g, guard (some m) keywords f = .ok g ∧ guard (some (ofEntries merged)) [] f = .ok g ∧
      g.start ⟨[ofInt 1, ofText "x", ofText "y"], []⟩ =
        .finished ⟨[.loading "f"], .ok [ofInt 1, ofText "x", ofText "y"]⟩ ∧
      g.start ⟨[ofText "x", ofInt 1, ofInt 2], []⟩ = .finished ⟨[.failed .named [ofText "a", ofText "n", ofText "z"]],
        .error (.invalid (ofText ("named argument a is not a \"whole\", named argument n is not a \"string\", " ++
          "named argument z is not a \"string\"")) [ofText "a", ofText "n", ofText "z"])⟩ := by
  intro m keywords merged f
  have hm : m.entries? = some _ := rfl
  have hkeys : Entries.Keyed m.declared := keyed_named ["a", "n"] rfl (by decide)
  have hnames : (keywords.map Prod.fst).Nodup := by decide
  obtain ⟨_, hmerged, -, -, hsame, -⟩ := guard_merged hm hkeys hnames rfl f
  obtain rfl : merged = _ := Except.ok.inj hmerged
  exact ⟨_, rfl, hsame _ rfl, rfl, rfl⟩

/-- The flag of an entry may have no truth value. A keyword that overrides the entry does not help:
the mapping has no normal form, though the merged mapping has one and its guard runs the body. -/
theorem guard_unmergedFlag :
    let spec := ofEntries [(ofText "isa", ofText "string"), (ofText "optional", .atom (.sized 0 (-1)))]
    let m := ofEntries [(ofText "a", spec)]
    let keywords : Arguments := [("a", ofText "whole")]
    let merged := [(ofText "a", ofText "whole")]
    let f : Callable (List Value) := {
      name := "f", doc := "", coroutine := false
      signature := [⟨"a", .standard, none⟩]
      body := fun call => ⟨[.loading "f"], .ok call.positions⟩ }
    Plain m ∧ Entries.insertAll [(ofText "a", spec)] keywords.entries = .ok merged ∧
      guard (some m) keywords f = .error .negativeLength ∧
      ∃ g, guard (some (ofEntries merged)) [] f = .ok g ∧
        g.start ⟨[ofInt 1], []⟩ = .finished ⟨[.loading "f"], .ok [ofInt 1]⟩ := by
  intro spec m keywords merged f
  have hspec : Plain spec := plain_named ["isa", "optional"] rfl (by decide)
    (List.forall_mem_cons.mpr ⟨.atom _, List.forall_mem_singleton.mpr (.atom _)⟩)
  have hm : Plain m := plain_named ["a"] rfl (by decide) (List.forall_mem_singleton.mpr hspec)
  exact ⟨hm, rfl, rfl, _, rfl, rfl⟩

/-! ### Keywords alone -/

section

variable {keywords : Arguments} {x : Value} {β : Type}

/-- A guard whose schema gives no fields is the guard by the mapping of its keywords. -/
theorem guard_of_noBase {schema? base? : Option Value} {rest : Arguments}
    (htake : takeSchema schema? keywords = .ok (base?, rest)) (hbase : baseFields base? = .ok [])
    (hnames : (rest.map Prod.fst).Nodup) (f : Callable β) :
    guard schema? keywords f = guard (some rest.toValue) [] f := by
  rw [guard_of_take htake, hbase, ok_bind, guard_schema]
  cases hn : rest.toValue.toFields with
  | error fault => rfl
  | ok fields =>
    have hkeyed : Entries.Keyed ([] ++ fields) := Arguments.keyed_fields hnames hn
    rw [ok_bind, insertAll_of_keyed hkeyed]
    rfl

theorem takeSchema_keyword (hx : keywords.lookup "schema" = some x) :
    takeSchema none keywords = .ok (some x, keywords.without "schema") := by
  simp [takeSchema, hx]

/-- A keyword called "schema" is the schema of the guard. -/
theorem guard_keyword (hnames : (keywords.map Prod.fst).Nodup) (hx : keywords.lookup "schema" = some x)
    (f : Callable β) : guard none keywords f = guard (some x) (keywords.without "schema") f := by
  rw [guard_of_take (takeSchema_keyword hx), guard_some (Arguments.lookup_without hnames), baseFields_some]

/-- No call gets through a guard without fields. -/
theorem start_guardWith_nil (f : Callable β) {call : Call} {arguments : Arguments}
    (hbind : f.signature.bind call = .ok arguments) : (guardWith [] f).start call =
      f.started ⟨[], .error (.invalid (ofText Outcome.missingSpec) [ofText Outcome.missingSpec])⟩ := by
  have hrun : validateNamed arguments.toValue (ofEntries []) = pure (.structuralError Outcome.missingSpec) := rfl
  rw [Callable.start_guardWith, checkCall_bound hbind hrun]
  rfl

/-- A call passes the fields of all keywords just if it passes those of one of them and those of the rest. -/
theorem verdict_without {name : String} {fields : Entries} (hnames : (keywords.map Prod.fst).Nodup)
    (hplain : ∀ a ∈ keywords, Plain a.2) (hx : keywords.lookup name = some x) (hrest : keywords.without name ≠ [])
    (hn : keywords.toValue.toFields = .ok fields) :
    ∃ spec others, x.toField = .ok spec ∧ (keywords.without name).toValue.toFields = .ok others ∧
      fields.Checkable ∧ Entries.Checkable others ∧ ∀ s call, verdict s fields call = .passed ↔
        verdict s others call = .passed ∧ verdict s [(ofText name, spec)] call = .passed := by
  have hsplit := Arguments.interleaves_without hx
  have hkeywords := Arguments.plain_toValue hnames hplain
  have hothers := Arguments.plain_toValue (Arguments.nodup_without name hnames)
    fun a ha => hplain a (hsplit.mem_iff.mpr (.inr ha))
  have hown : Plain (ofEntries [(ofText name, x)]) := plain_named [name] rfl (List.nodup_singleton name)
    (List.forall_mem_singleton.mpr (hplain (name, x) (hsplit.mem_iff.mpr (.inl List.mem_cons_self))))
  have hentries : Interleaves [(ofText name, x)] (keywords.without name).entries keywords.entries :=
    hsplit.map fun a : String × Value => (ofText a.1, a.2)
  obtain ⟨own, others, hown', hothers', hfields⟩ := hentries.fields hn
  obtain ⟨spec, hspec, rfl⟩ : ∃ spec, x.toField = .ok spec ∧ [(ofText name, spec)] = own := by
    obtain ⟨spec, hspec, h⟩ := bind_eq_ok.mp hown'
    exact ⟨spec, hspec, Except.ok.inj h⟩
  have hne : keywords ≠ [] := by
    rintro rfl
    cases hx
  have hall : fields.Checkable := hkeywords.checkable rfl (by simpa using hne) hn
  have hchecked : Entries.Checkable others := hothers.checkable rfl (by simpa using hrest) hothers'
  refine ⟨spec, others, hspec, hothers', hall, hchecked, fun s call => ?_⟩
  rw [← hfields.verdict_iff (hown.checkable rfl (by simp) hown') hchecked hall, Verdict.andThen_eq_passed, and_comm]

/-- What the guard `g` by keywords without the one called "schema" and the guard `g'` by all of them do
with calls. They check the fields `others` and `fields`; `spec` is what "schema" is to be. -/
structure WithoutSchema (spec : Value) (others fields : Entries) (f g g' : Callable β) : Prop where
  keywords (call : Call) : g.start call = f.judged (verdict f.signature others call) call
  mapping (call : Call) : g'.start call = f.judged (verdict f.signature fields call) call
  /-- The argument for "schema" is only looked at by `g'`. -/
  passed (call : Call) : verdict f.signature fields call = .passed ↔
    verdict f.signature others call = .passed ∧ verdict f.signature [(ofText "schema", spec)] call = .passed

/-- What becomes of a guard by keywords of which one, with the value `x`, is called "schema". -/
structure SchemaKeyword (keywords : Arguments) (x : Value) (f : Callable β) : Prop where
  taken : guard none keywords f = guard (some x) (keywords.without "schema") f
  unguarded : x.toFields = .ok [] → guard none keywords f = guard (some (keywords.without "schema").toValue) [] f
  /-- Without other keywords no call gets through. -/
  alone : x.toFields = .ok [] → keywords.without "schema" = [] → ∃ g, guard none keywords f = .ok g ∧
    ∀ call arguments, f.signature.bind call = .ok arguments → g.start call =
      f.started ⟨[], .error (.invalid (ofText Outcome.missingSpec) [ofText Outcome.missingSpec])⟩
  /-- With others "schema" is what the mapping checks besides. -/
  besides : x.toFields = .ok [] → keywords.without "schema" ≠ [] → ∀ fields, keywords.toValue.toFields = .ok fields →
    ∃ spec others g g', x.toField = .ok spec ∧ (keywords.without "schema").toValue.toFields = .ok others ∧
      guard none keywords f = .ok g ∧ guard (some keywords.toValue) [] f = .ok g' ∧
      WithoutSchema spec others fields f g g'

/-- **Keywords spell a mapping, unless one is called "schema".** Without it the guard by the keywords
is that by their mapping, faults included. With it the guard is the one by its value, as the schema,
and the other keywords. If this value gives no fields, as a type name or a class, a parameter called
"schema" is not guarded: the guard is that by the other keywords. It stops every call that binds if
there are none, as a guard without fields. Otherwise a call passes the guard by the mapping just if
it passes this one and its argument for the parameter passes too. -/
theorem guard_keywords (hnames : (keywords.map Prod.fst).Nodup) (hplain : ∀ a ∈ keywords, Plain a.2)
    (f : Callable β) :
    (keywords.lookup "schema" = none → guard none keywords f = guard (some keywords.toValue) [] f) ∧
    ∀ x, keywords.lookup "schema" = some x → SchemaKeyword keywords x f := by
  refine ⟨fun hfree => guard_of_noBase (takeSchema_of_free hfree none) rfl hnames f, fun x hx => ?_⟩
  have hunguarded : x.toFields = .ok [] →
      guard none keywords f = guard (some (keywords.without "schema").toValue) [] f := fun hnone =>
    guard_of_noBase (takeSchema_keyword hx) ((baseFields_some x).trans hnone)
      (Arguments.nodup_without "schema" hnames) f
  refine ⟨guard_keyword hnames hx f, hunguarded, fun hnone hrest => ?_, fun hnone hrest fields hn => ?_⟩
  · rw [hunguarded hnone, hrest]
    exact ⟨guardWith [] f, rfl, fun call arguments hbind => start_guardWith_nil f hbind⟩
  · obtain ⟨spec, others, hspec, hothers, hall, hchecked, hiff⟩ := verdict_without hnames hplain hx hrest hn
    exact ⟨spec, others, guardWith others f, guardWith fields f, hspec, hothers,
      (hunguarded hnone).trans (guard_of_fields hothers f), guard_of_fields hn f,
      { keywords := start_guardWith_verdict hchecked f
        mapping := start_guardWith_verdict hall f
        passed := hiff f.signature }⟩

end

/-- A parameter called "schema" and another one. The guard by the keywords only looks at the other
one, that by the mapping at both. -/
theorem guard_keywords_load :
    let keywords : Arguments := [("path", ofText "string"), ("schema", ofText "plainObject")]
    let load : Callable (List Value) := {
      name := "load", doc := "", coroutine := false
      signature := [⟨"path", .standard, none⟩, ⟨"schema", .standard, none⟩]
      body := fun call => ⟨[.loading "load"], .ok call.positions⟩ }
    ∃ g g', guard none keywords load = .ok g ∧ guard (some keywords.toValue) [] load = .ok g' ∧
      g.start ⟨[ofText "x", ofInt 1], []⟩ = .finished ⟨[.loading "load"], .ok [ofText "x", ofInt 1]⟩ ∧
      g'.start ⟨[ofText "x", ofInt 1], []⟩ = .finished ⟨[.failed .named [ofText "schema"]],
        .error (.invalid (ofText "named argument schema is not a \"plainObject\"") [ofText "schema"])⟩ := by
  intro keywords load
  have hplain : ∀ a ∈ keywords, Plain a.2 :=
    List.forall_mem_cons.mpr ⟨.atom _, List.forall_mem_singleton.mpr (.atom _)⟩
  have hnames : (keywords.map Prod.fst).Nodup := by decide
  obtain ⟨-, hkeyword⟩ := guard_keywords hnames hplain load
  obtain ⟨spec, others, g, g', -, hothers, hg, hg', hcalls⟩ := (hkeyword _ rfl).besides rfl (by decide) _ rfl
  obtain rfl : _ = others := Except.ok.inj hothers
  refine ⟨g, g', hg, hg', ?_, ?_⟩
  · rw [hcalls.keywords]
    rfl
  · rw [hcalls.mapping]
    rfl

/-- The only parameter is called "schema". The guard by the mapping runs the body for a text, that by
the keyword stops the call for want of fields. -/
theorem guard_keyword_onlySchema :
    let keywords : Arguments := [("schema", ofText "string")]
    let f : Callable (List Value) := {
      name := "f", doc := "", coroutine := false
      signature := [⟨"schema", .standard, none⟩]
      body := fun call => ⟨[.loading "f"], .ok call.positions⟩ }
    ∃ g g', guard none keywords f = .ok g ∧ guard (some keywords.toValue) [] f = .ok g' ∧
      g'.start ⟨[ofText "x"], []⟩ = .finished ⟨[.loading "f"], .ok [ofText "x"]⟩ ∧
      g.start ⟨[ofText "x"], []⟩ = .finished ⟨[], .error (.invalid (ofText "missing validation spec")
        [ofText "missing validation spec"])⟩ :=
  ⟨_, _, rfl, rfl, rfl, rfl⟩

end ArgSchema
