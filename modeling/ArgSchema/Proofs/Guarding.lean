/-
# Guarded calls

What comes of a call of a guarded function is settled before its body runs. A call that does not
fit the parameters fails with the fault of that. The arguments of any other call, defaults included,
are validated by name against the fields of the guard: if they are valid the call is what it would
be without the guard, otherwise it fails with the summary and the failed keys of that outcome
(`guard_outcome`). The body may be any computation, and it has no part in what a failed call comes to.
Nor has the spelling of the call: calls that give the parameters the same arguments are all let
through or all fail alike.

The fields of a guard are merged from those of its schema and of its keywords. They are the normal
form of plain entries (`guardFields_eq_ok`), so the validation returns, its outcome has a summary, and
a valid one leaves no record behind.

Key definitions: `Callable.started`, `guardEntries`, `Callable.Guards`.
-/
import ArgSchema.Guard
import ArgSchema.Proofs.CheckTree
import ArgSchema.Proofs.Merging

namespace ArgSchema

open Value

/-! ### The fields of a guard -/

/-- Arguments as the entries of a mapping. -/
def Arguments.entries (as : Arguments) : Entries := as.map fun a => (.ofText a.1, a.2)

/-- The entries that the schema of a guard declares; there are none if it is left out. -/
def baseEntries (schema? : Option Value) : Entries := (schema?.map Value.declared).getD []

/-- The entries whose normal form a guard checks: those that its schema declares, with those of its
keywords written over them. -/
def guardEntries (schema? : Option Value) (keywords : Arguments) : Except Fault Entries := do
  let (base?, others) ← takeSchema schema? keywords
  Entries.insertAll (baseEntries base?) others.entries

theorem Arguments.mem_of_lookup {name : String} {x : Value} : ∀ {as : Arguments}, as.lookup name = some x →
    ∃ a ∈ as, a.2 = x
  | (name', y) :: rest, h => by
    rw [List.lookup_cons] at h
    split at h
    · exact ⟨(name', y), List.mem_cons_self, Option.some.inj h⟩
    · obtain ⟨a, ha, hx⟩ := Arguments.mem_of_lookup h
      exact ⟨a, List.mem_cons_of_mem _ ha, hx⟩

/-- The schema and the keywords that are left are among those that were given. -/
theorem takeSchema_keeps {P : Value → Prop} {schema? base? : Option Value} {keywords rest : Arguments}
    (hs : ∀ s ∈ schema?, P s) (hk : ∀ a ∈ keywords, P a.2) (h : takeSchema schema? keywords = .ok (base?, rest)) :
    (∀ s ∈ base?, P s) ∧ ∀ a ∈ rest, P a.2 := by
  unfold takeSchema at h
  cases hlookup : keywords.lookup "schema" with
  | none =>
    obtain ⟨rfl, rfl⟩ : schema? = base? ∧ keywords = rest := by simpa [hlookup] using h
    exact ⟨hs, hk⟩
  | some s =>
    obtain ⟨a, ha, rfl⟩ := Arguments.mem_of_lookup hlookup
    cases schema? with
    | none =>
      obtain ⟨rfl, rfl⟩ : some a.2 = base? ∧ keywords.without "schema" = rest := by simpa [hlookup] using h
      exact ⟨fun s hs => Option.mem_some.mp hs ▸ hk a ha, fun b hb => hk b (List.mem_of_mem_eraseP hb)⟩
    | some s => simp [hlookup] at h

theorem takeSchema_total {schema? : Option Value} {keywords : Arguments}
    (honce : schema? = none ∨ keywords.has "schema" = false) :
    ∃ base? rest, takeSchema schema? keywords = .ok (base?, rest) := by
  unfold takeSchema
  rcases honce with rfl | hnone
  · cases keywords.lookup "schema" <;> exact ⟨_, _, rfl⟩
  · have hlookup : keywords.lookup "schema" = none := by simpa [Arguments.has] using hnone
    exact ⟨_, _, by rw [hlookup]⟩

/-- Null, as a schema that is left out, stands for no fields. -/
theorem baseFields_some (s : Value) : baseFields (some s) = s.toFields := by
  rw [baseFields]
  split
  · rename_i hnull
    rw [isNull_iff.mp hnull]
    rfl
  · rfl

section

variable {base? : Option Value}

/-- A plain schema of a guard stands for the entries that it declares. -/
theorem baseFields_eq (hs : ∀ s ∈ base?, Plain s) : baseFields base? = normalizeEntries (baseEntries base?) := by
  cases base? with
  | none => rw [baseFields, baseEntries, Option.map_none, Option.getD_none, normalizeEntries]
  | some s =>
    have hplain : Plain s := hs s rfl
    rw [baseFields_some, hplain.toFields_eq]
    rfl

theorem baseEntries_plain (hs : ∀ s ∈ base?, Plain s) :
    Entries.Keyed (baseEntries base?) ∧ ∀ e ∈ baseEntries base?, Plain e.2 := by
  cases base? with
  | none => exact ⟨indexed_keyed [] 0, fun e he => by cases he⟩
  | some s => exact ⟨(hs s rfl).keyed, (hs s rfl).declared⟩

theorem baseFields_total (hs : ∀ s ∈ base?, Measured s) : ∃ base, baseFields base? = .ok base := by
  cases base? with
  | none => exact ⟨[], rfl⟩
  | some s =>
    rw [baseFields_some]
    exact (hs s rfl).toFields_total

end

/-- A guard by a schema alone checks the fields of the schema. -/
theorem guard_schema (s : Value) {β : Type} (f : Callable β) :
    guard (some s) [] f = (do .ok (guardWith (← s.toFields) f)) := by
  have htake : takeSchema (some s) [] = .ok (some s, []) := rfl
  rw [guard, guardFields, htake, ok_bind]
  simp only [baseFields_some]
  cases s.toFields <;> rfl

theorem guard_of_fields {s : Value} {fields : Entries} (hn : s.toFields = .ok fields) {β : Type} (f : Callable β) :
    guard (some s) [] f = .ok (guardWith fields f) := by
  rw [guard_schema, hn, ok_bind]

/-- There is a guard by a schema just if the schema has a normal form. -/
theorem exists_guard_iff {s : Value} {β : Type} {f : Callable β} :
    (∃ g, guard (some s) [] f = .ok g) ↔ ∃ fields, s.toFields = .ok fields := by
  rw [guard_schema]
  cases s.toFields <;> simp

section

variable {schema? : Option Value} {keywords : Arguments}

/-- **The fields of a guard are the normal form of plain entries.** -/
theorem guardFields_eq_ok {fields : Entries} (hs : ∀ s ∈ schema?, Plain s) (hk : ∀ a ∈ keywords, Plain a.2)
    (h : guardFields schema? keywords = .ok fields) :
    ∃ es, guardEntries schema? keywords = .ok es ∧ Plain (ofEntries es) ∧ normalizeEntries es = .ok fields := by
  obtain ⟨⟨base?, rest⟩, htake, h⟩ := bind_eq_ok.mp h
  obtain ⟨base, hbase, h⟩ := bind_eq_ok.mp h
  obtain ⟨others, hothers, h⟩ := bind_eq_ok.mp h
  have hothers : normalizeEntries rest.entries = .ok others := hothers
  obtain ⟨hplain, hrest⟩ := takeSchema_keeps hs hk htake
  obtain ⟨hkeyed, hdeclared⟩ := baseEntries_plain hplain
  have hmerge := normalizeEntries_insertAll ((baseFields_eq hplain).symm.trans hbase) hothers
  rw [h] at hmerge
  obtain ⟨es, hes, hn⟩ := bind_eq_ok.mp hmerge
  have hentries : guardEntries schema? keywords = .ok es := by
    rw [guardEntries, htake]
    exact hes
  refine ⟨es, hentries, .mapping (hkeyed.insertAll hes) fun e he => ?_, hn⟩
  rcases mem_insertAll hes he with he | ⟨f, hf, hv⟩
  · exact hdeclared e he
  · obtain ⟨a, ha, rfl⟩ := List.mem_map.mp hf
    exact hv ▸ hrest a ha

/-- A guard has fields if its parts are measured and its schema is not given twice. -/
theorem guardFields_total (hs : ∀ s ∈ schema?, Measured s) (hk : ∀ a ∈ keywords, Measured a.2)
    (honce : schema? = none ∨ keywords.has "schema" = false) : ∃ fields, guardFields schema? keywords = .ok fields := by
  obtain ⟨base?, rest, htake⟩ := takeSchema_total honce
  obtain ⟨hbase, hrest⟩ := takeSchema_keeps hs hk htake
  obtain ⟨base, hbase⟩ := baseFields_total hbase
  obtain ⟨others, hothers⟩ : ∃ others, normalizeEntries rest.entries = .ok others := by
    refine normalizeEntries_total fun e he => ?_
    obtain ⟨a, ha, rfl⟩ := List.mem_map.mp he
    exact (hrest a ha).toField_total
  have hkeys : ∀ f ∈ others, ∃ k, f.1.key = .ok k := by
    intro f hf
    obtain ⟨e, he, hkey, -⟩ := mem_normalizeEntries hothers f hf
    obtain ⟨a, -, rfl⟩ := List.mem_map.mp he
    exact ⟨_, by rw [hkey, key_ofText]⟩
  obtain ⟨fields, hfields⟩ := insertAll_total hkeys base
  have hto : rest.toValue.toFields = .ok others := hothers
  refine ⟨fields, ?_⟩
  rw [guardFields, htake, ok_bind]
  simp only [hbase, hto, ok_bind, hfields]

end

/-! ### One call -/

namespace Callable

variable {β : Type}

/-- A call of a function that comes to the given end: at once, or once it is waited for. -/
def started (f : Callable β) (x : Traced β) : Started β := if f.coroutine then .waiting x else .finished x

/-- What `g` makes of the calls of `f`, as a function that is guarded by fields. A call that does
not fit the parameters fails. For all calls that give the parameters the same arguments there is one
outcome, that of validating the arguments by name: if it is valid each of these calls is the call of
`f`, and otherwise all of them fail with its summary and its failed keys. -/
structure Guards (g f : Callable β) (fields : Entries) : Prop where
  unbound : ∀ call fault, f.signature.bind call = .error fault →
    g.start call = f.started ⟨[], .error (.binding fault)⟩
  bound : ∀ arguments, (∀ a ∈ arguments, Measured a.2) → ∃ log o text,
    named arguments.toValue (ofEntries fields) = ⟨log, .ok o⟩ ∧ o.errorString = .ok (ofText text) ∧
    ∀ call, f.signature.bind call = .ok arguments → g.start call =
      if o.isValid then f.start call else f.started ⟨log, .error (.invalid (ofText text) o.failedKeys)⟩

/-- A guarded function starts with the check of the call. -/
theorem start_guardWith (f : Callable β) (fields : Entries) (call : Call) : (guardWith fields f).start call =
    f.started (do checkCall f.signature fields call; f.body call) := rfl

end Callable

theorem measured_arguments {arguments : Arguments} (h : ∀ a ∈ arguments, Measured a.2) : Measured arguments.toValue := by
  refine measured_mapping fun e he => ?_
  obtain ⟨a, ha, rfl⟩ := List.mem_map.mp he
  exact ⟨measured_atom ⟨_, rfl⟩, h a ha⟩

/-- Values that are validated by name against the normal form of plain entries have an outcome with
a summary; a valid one leaves no record. -/
theorem named_normal {es fields : Entries} {v : Value} (hs : Plain (ofEntries es)) (hn : normalizeEntries es = .ok fields)
    (hv : Measured v) : ∃ log o text, validateNamed v (ofEntries fields) = ⟨log, .ok o⟩ ∧
      o.errorString = .ok (ofText text) ∧ (o.isValid = true → log = []) := by
  have hto : (ofEntries es).toFields = .ok fields := hn
  obtain ⟨log, o, hrun, hleaves⟩ := validateIn_leaves hs hto hv .named
  have hresult : (Request.namedStrictly v (ofEntries es)).run.result = .ok o := congrArg Traced.result hrun
  obtain ⟨hkeyed, hsettled⟩ := hs.settled_fields hto
  obtain ⟨text, htext⟩ := Request.errorString_text hresult hv hto hkeyed fun f hf => (hsettled f hf).described
  have hsame := validateNamed_fields hto (normalizeEntries_idem hn) v
  exact ⟨log, o, text, hsame.symm.trans hrun, htext, fun hvalid => hleaves.none (.inr hvalid)⟩

theorem checkCall_unbound {s : Signature} {call : Call} {fault : BindingFault} (h : s.bind call = .error fault)
    (fields : Entries) : checkCall s fields call = ⟨[], .error (.binding fault)⟩ := by
  rw [checkCall, boundArguments, h]
  rfl

theorem checkCall_bound {s : Signature} {call : Call} {arguments : Arguments} {fields : Entries} {log : List Record}
    {o : Outcome} (h : s.bind call = .ok arguments)
    (hrun : validateNamed arguments.toValue (ofEntries fields) = ⟨log, .ok o⟩) :
    checkCall s fields call = ⟨log, o.check⟩ := by
  have hcheck : checkCall s fields call = (do
      let o ← validateNamed arguments.toValue (ofEntries fields)
      Traced.lift o.check) := by
    rw [checkCall, boundArguments, h]
    exact pure_bind (m := Traced) arguments _
  rw [hcheck, hrun]
  exact congrArg (Traced.mk · o.check) (List.append_nil log)

/-- What a function makes of its calls if it checks them against the normal form of plain entries. -/
theorem guards_guardWith {β : Type} (f : Callable β) {es fields : Entries} (hs : Plain (ofEntries es))
    (hn : normalizeEntries es = .ok fields) : (guardWith fields f).Guards f fields := by
  refine ⟨fun call fault h => ?_, fun arguments harguments => ?_⟩
  · rw [Callable.start_guardWith, checkCall_unbound h]
    rfl
  · obtain ⟨log, o, text, hrun, htext, hsilent⟩ := named_normal hs hn (measured_arguments harguments)
    have hto : (ofEntries fields).toFields = .ok fields := normalizeEntries_idem hn
    refine ⟨log, o, text, (named_fields hto _).trans hrun, htext, fun call h => ?_⟩
    rw [Callable.start_guardWith, checkCall_bound h hrun, Outcome.check]
    by_cases hvalid : o.isValid
    · rw [if_pos hvalid, if_pos hvalid, hsilent hvalid]
      exact congrArg f.started (pure_bind (m := Traced) () _)
    · rw [if_neg hvalid, if_neg hvalid, htext]
      rfl

/-- **A guard runs the body of a function just for the calls whose arguments are valid.** This is
what comes of any call, for every plain schema and plain keywords that the guard is given and every
function, a coroutine function once it is waited for. Such a guard has fields unless a truth value
in the schema fails, or the schema is given twice. -/
theorem guard_outcome {schema? : Option Value} {keywords : Arguments} (hs : ∀ s ∈ schema?, Plain s)
    (hk : ∀ a ∈ keywords, Plain a.2) {β : Type} (f : Callable β) :
    (∀ fields, guardFields schema? keywords = .ok fields →
      ∃ g, guard schema? keywords f = .ok g ∧ g.Guards f fields) ∧
    ((∀ s ∈ schema?, Measured s) → (∀ a ∈ keywords, Measured a.2) → schema? = none ∨ keywords.has "schema" = false →
      ∃ fields, guardFields schema? keywords = .ok fields) := by
  refine ⟨fun fields h => ?_, guardFields_total⟩
  obtain ⟨es, -, hplain, hn⟩ := guardFields_eq_ok hs hk h
  exact ⟨guardWith fields f, by rw [guard, h, ok_bind], guards_guardWith f hplain hn⟩

/-- A name and a number of retries that may be left out. By position or by name, with the default
or null for it, the call is let through; a negative number is told about, and a call without a name
does not fit. -/
theorem guard_outcome_connect :
    let keywords : Arguments := [("name", ofText "string"),
      ("retries", ofEntries [(ofText "isa", ofText "natural"), (ofText "optional", ofBool true)])]
    let connect : Callable (List Value) := {
      name := "connect", doc := "", coroutine := false
      signature := [⟨"name", .standard, none⟩, ⟨"retries", .standard, some null⟩]
      body := fun call => ⟨[.loading "db"], .ok call.positions⟩ }
    ∃ g, guard none keywords connect = .ok g ∧
      g.start ⟨[ofText "db"], []⟩ = .finished ⟨[.loading "db"], .ok [ofText "db"]⟩ ∧
      g.start ⟨[], [("retries", null), ("name", ofText "db")]⟩ = .finished ⟨[.loading "db"], .ok []⟩ ∧
      g.start ⟨[ofText "db"], [("retries", ofInt (-1))]⟩ = .finished ⟨[.failed .named [ofText "retries"]],
        .error (.invalid (ofText "named argument retries is not a \"natural\"") [ofText "retries"])⟩ ∧
      g.start ⟨[], []⟩ = .finished ⟨[], .error (.binding (.missing "name"))⟩ := by
  intro keywords connect
  have hnone : ∀ s ∈ (none : Option Value), Plain s ∧ Measured s := by simp
  have hkeywords : ∀ a ∈ keywords, Plain a.2 ∧ Measured a.2 := by
    refine List.forall_mem_cons.mpr ⟨⟨.atom _, measured_atom ⟨_, rfl⟩⟩, List.forall_mem_singleton.mpr ⟨?_, ?_⟩⟩
    · exact plain_named ["isa", "optional"] rfl (by decide)
        (List.forall_mem_cons.mpr ⟨.atom _, List.forall_mem_singleton.mpr (.atom _)⟩)
    · exact measured_named ["isa", "optional"] rfl (List.forall_mem_cons.mpr
        ⟨measured_atom ⟨_, rfl⟩, List.forall_mem_singleton.mpr (measured_atom ⟨_, rfl⟩)⟩)
  obtain ⟨hguard, htotal⟩ :=
    guard_outcome (fun s hs => (hnone s hs).1) (fun a ha => (hkeywords a ha).1) connect
  obtain ⟨fields, hfields⟩ := htotal (fun s hs => (hnone s hs).2) (fun a ha => (hkeywords a ha).2) (.inl rfl)
  obtain ⟨g, hg, hguards⟩ := hguard fields hfields
  obtain rfl : _ = fields := Except.ok.inj hfields
  have harguments : ∀ n, Measured n → ∀ a ∈ [("name", ofText "db"), ("retries", n)], Measured a.2 := fun n hn =>
    List.forall_mem_cons.mpr ⟨measured_atom ⟨_, rfl⟩, List.forall_mem_singleton.mpr hn⟩
  -- the two calls that are let through give the parameters the same arguments
  obtain ⟨log, o, text, hrun, -, hvalid⟩ := hguards.bound _ (harguments null measured_null)
  obtain ⟨log', o', text', hrun', htext', hrejected⟩ := hguards.bound _ (harguments (ofInt (-1)) (measured_atom ⟨_, rfl⟩))
  obtain rfl : _ = o := Except.ok.inj (congrArg Traced.result hrun)
  refine ⟨g, hg, ?_, ?_, ?_, hguards.unbound _ _ rfl⟩
  · rw [hvalid _ rfl]
    rfl
  · rw [hvalid _ rfl]
    rfl
  · rw [hrejected _ rfl]
    obtain rfl : _ = log' := congrArg Traced.log hrun'
    obtain rfl : _ = o' := Except.ok.inj (congrArg Traced.result hrun')
    have hmessage : Except.ok (ofText text') = .ok (ofText "named argument retries is not a \"natural\"") :=
      htext'.symm.trans rfl
    rw [Except.ok.inj hmessage]
    rfl

end ArgSchema
