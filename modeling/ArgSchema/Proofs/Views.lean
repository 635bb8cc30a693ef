/-
# The views of an outcome agree

Whether an outcome is valid can be seen in six ways: it says so, it is true, no key failed, its
summary is empty, it shows itself as valid, and checking it passes. They are computed apart from
each other, and they agree (`Outcome.Views`). An outcome that is not valid raises its summary with
its keys, and shows how many keys those are.

What could come apart is the summary, which finds each failed value and its field again. For a
schema of plain data the fields are described, and the values are those that were checked, so that
there is a clause for each key (`Request.summarized`). No clause is empty, nor is the message of a
structural outcome (`Outcome.messages_ne_empty`), so only a valid outcome has an empty summary.

Key definitions: `Value.Missing`, `Outcome.Tells`, `Outcome.Views`.
-/
import ArgSchema.Proofs.Lookups
import ArgSchema.Proofs.SharedValues

namespace ArgSchema

open Value

/-- A value that is reported as missing: null, which is also what is found where there is nothing,
or a value of length zero. -/
def Value.Missing (v : Value) : Prop := v = null ∨ v.length? = .ok (some 0)

/-- What a clause tells of a failed key: that its value is missing, or what it should be. Only
clauses of the first sort begin with "missing". -/
def Outcome.Tells (o : Outcome) (key : Value) (clause : String) : Prop :=
  ∃ v isa optional d, o.get key = .ok v ∧ lookup? o.fields key = .ok (some (.fieldSpec isa optional)) ∧
    isa.describe = .ok d ∧
    (v.Missing → clause = "missing " ++ o.mode.name ++ " argument " ++ key.plain) ∧
    (¬ v.Missing → clause = o.mode.name ++ " argument " ++ key.plain ++ " is not a \"" ++ d.plain ++ "\"") ∧
    ("missing".toList <+: clause.toList ↔ v.Missing)

/-- Every way to look at an outcome, next to each other; `text` is its summary. -/
structure Outcome.Views (o : Outcome) (text : String) : Prop where
  summary : o.errorString = .ok (ofText text)
  truth : o.truth = true ↔ o.isValid = true
  keys : o.failedKeys = [] ↔ o.isValid = true
  blank : text = "" ↔ o.isValid = true
  shown : o.shown = "<ValidationResult: Valid>" ↔ o.isValid = true
  check : o.check = .ok () ↔ o.isValid = true
  /-- What is raised is the summary with the failed keys. -/
  raised : o.isValid = false → o.check = .error (.invalid (ofText text) o.failedKeys) ∧
    (Fault.invalid (ofText text) o.failedKeys).message = text
  counted : o.isValid = false → o.shown = "<ValidationResult: " ++ toString o.failedKeys.length ++ " errors>"
  /-- The summary of values that reached the fields has one clause for each failed key, in order. -/
  clauses : o.structural = false → ∃ clauses, text = joinWith ", " clauses ∧ List.Forall₂ o.Tells o.failedKeys clauses

/-! ### Clauses -/

theorem isEmpty_iff {v : Value} : v.isEmpty = .ok true ↔ v.Missing := by
  unfold Value.isEmpty Missing
  by_cases hnull : v = null
  · have hisNull : v.isNull = true := isNull_iff.mpr hnull
    rw [if_pos hisNull]
    exact iff_of_true rfl (.inl hnull)
  · have hisNull : v.isNull = false := by
      rw [Bool.eq_false_iff]
      exact fun h => hnull (isNull_iff.mp h)
    rw [hisNull, if_neg Bool.false_ne_true]
    cases v.length? with
    | error fault => simp [hnull]
    | ok n => simp [hnull]

/-- A clause begins with "missing" just if it is about an empty value. -/
theorem wording_missing {mode : Mode} {empty : Bool} {key spec : Value} {c : String}
    (h : Outcome.wording mode empty key spec = .ok c) : "missing".toList <+: c.toList ↔ empty = true := by
  constructor
  · rintro ⟨behind, hbehind⟩
    obtain ⟨rest, hrest⟩ := Outcome.wording_letter h
    -- the first letters of the two sorts of clauses differ
    have hletter : 'm' = Outcome.letter mode empty := by
      rw [hrest] at hbehind
      exact (List.cons.inj hbehind).1
    have hsame : Outcome.letter mode true = Outcome.letter mode empty := hletter
    exact (Outcome.letter_injective mode hsame).symm
  · rintro rfl
    obtain rfl : "missing " ++ mode.name ++ " argument " ++ key.plain = c := by simpa [Outcome.wording] using h
    rw [String.toList_append, String.toList_append, String.toList_append]
    exact ⟨' ' :: (mode.name.toList ++ " argument ".toList ++ key.plain.toList), by simp⟩

theorem wording_ne_empty {mode : Mode} {empty : Bool} {key spec : Value} {c : String}
    (h : Outcome.wording mode empty key spec = .ok c) : c ≠ "" := by
  rintro rfl
  obtain ⟨rest, hrest⟩ := Outcome.wording_letter h
  simp at hrest

/-- The clause of a key tells of it, if the fields are described. -/
theorem tells_of_clauseFor {o : Outcome} {key : Value} {c : String} (hd : ∀ f ∈ o.fields, Described f.2)
    (h : o.clauseFor key = .ok c) : o.Tells key c ∧ c ≠ "" := by
  obtain ⟨empty, spec, hempty, hfound, hc⟩ := Outcome.clauseFor_eq_ok.mp h
  obtain ⟨v, hv, hempty⟩ := bind_eq_ok.mp hempty
  obtain ⟨f, hf, rfl⟩ : ∃ f ∈ o.fields, f.2 = spec := by
    obtain ⟨k, -, hfind⟩ := bind_eq_ok.mp hfound
    obtain ⟨f, hf, -, he⟩ := find?_mem (Except.ok.inj hfind)
    exact ⟨f, hf, he⟩
  obtain ⟨isa, optional, d, hspec, hdescribe⟩ := hd f hf
  rw [hspec] at hfound hc
  have hmissing : v.Missing ↔ empty = true := by rw [← isEmpty_iff, hempty, Except.ok.injEq]
  refine ⟨⟨v, isa, optional, d, hv, hfound, hdescribe, fun hm => ?_, fun hm => ?_, ?_⟩, wording_ne_empty hc⟩
  · rw [hmissing.mp hm] at hc
    exact (by simpa [Outcome.wording] using hc.symm)
  · rw [Bool.eq_false_iff.mpr (mt hmissing.mpr hm)] at hc
    exact (by simpa [Outcome.wording, Value.constraint, hdescribe] using hc.symm)
  · exact (wording_missing hc).trans hmissing.symm

/-- Texts of which the first is not empty join to a text that is not. -/
theorem joinWith_ne_empty {sep c : String} (hc : c ≠ "") (cs : List String) : joinWith sep (c :: cs) ≠ "" := by
  cases cs with
  | nil =>
    rw [joinWith, String.intercalate_singleton]
    exact hc
  | cons d rest =>
    rw [joinWith, String.intercalate_cons_cons]
    intro h
    exact hc (String.append_eq_empty_iff.mp (String.append_eq_empty_iff.mp h).1).1

/-! ### Summaries of requests -/

theorem Outcome.messages_ne_empty : ∀ message ∈ messages, message ≠ "" := by decide

/-- The fields that a request checks against a plain schema are settled. -/
theorem Request.settled_fields {r : Request} {fields : Entries} (hs : ∀ s ∈ r.schemas, Plain s)
    (h : r.fields = .ok fields) : Entries.Keyed fields ∧ ∀ f ∈ fields, Settled f.2 := by
  have hplain : Plain r.schema := Request.schema_keeps (fun _ => .collection) hs
  rcases r.fields_cases with he | he
  · rw [he] at h
    exact hplain.settled_fields h
  · rw [he] at h
    obtain ⟨once, hn, htwice⟩ := bind_eq_ok.mp h
    have hsettled := hplain.settled_fields hn
    obtain rfl : once = fields := by
      rw [normalizeEntries_settled hsettled.2] at htwice
      exact Except.ok.inj htwice
    exact hsettled

/-- **The summary of checked values** has a clause for each failed key, in order, which tells of it. -/
theorem Request.summarized {r : Request} {o : Outcome} (hs : ∀ s ∈ r.schemas, Plain s) (hc : o.Checks r.values r.fields)
    (hlen : ∀ k ∈ o.failedKeys, ∀ v, o.get k = .ok v → ∃ n, v.length? = .ok n) :
    ∃ clauses, o.errorString = .ok (ofText (joinWith ", " clauses)) ∧
      List.Forall₂ (fun k c => o.Tells k c ∧ c ≠ "") o.failedKeys clauses := by
  obtain ⟨hk, hsettled⟩ := Request.settled_fields hs hc.fields
  obtain ⟨hverdicts, -⟩ := failingKeys_verdicts hc.failing
  have htell : ∀ f ∈ o.fields, f.1 ∈ o.failedKeys → o.CanTell f := by
    intro f hf hfailed
    obtain ⟨ok, hok⟩ := hverdicts f hf
    obtain ⟨v, hv, -⟩ := bind_eq_ok.mp hok
    obtain ⟨n, hn⟩ := hlen f.1 hfailed v hv
    refine ⟨v, v.isNull || n == some 0, hv, ?_, .inr (hsettled f hf).described⟩
    unfold Value.isEmpty
    cases v.isNull <;> simp [hn]
  obtain ⟨text, htext⟩ := (ArgSchema.errorString_iff hc.structural hk (failingKeys_mem hc.failing)).mpr htell
  rw [Outcome.errorString, hc.structural, if_neg Bool.false_ne_true] at htext ⊢
  obtain ⟨clauses, hclauses, -⟩ := bind_eq_ok.mp htext
  refine ⟨clauses, by rw [hclauses, ok_bind], (mapM_eq_ok.mp hclauses).imp fun k c hkc => ?_⟩
  exact tells_of_clauseFor (fun f hf => (hsettled f hf).described) hkc

/-! ### All views -/

theorem Outcome.shown_eq_iff {o : Outcome} : o.shown = "<ValidationResult: Valid>" ↔ o.isValid = true := by
  unfold Outcome.shown
  cases o.isValid with
  | true => exact iff_of_true rfl rfl
  | false =>
    -- a count of errors ends in other letters
    have hsplit : "<ValidationResult: Valid>" = "<ValidationResult" ++ ": Valid>" := rfl
    rw [if_neg Bool.false_ne_true, hsplit]
    refine iff_of_false (fun h => ?_) Bool.false_ne_true
    have hletters := congrArg String.toList h
    rw [String.toList_append, String.toList_append (s := "<ValidationResult")] at hletters
    have hsize : " errors>".toList.length = ": Valid>".toList.length := by simp
    have hend : " errors>".toList = ": Valid>".toList := (List.append_inj' hletters hsize).2
    simp at hend

/-- The views of an outcome agree as soon as its summary is a text that is empty just if it is valid. -/
theorem Outcome.views_of_summary {o : Outcome} {text : String} (hsummary : o.errorString = .ok (ofText text))
    (htext : text = "" ↔ o.isValid = true)
    (hclauses : o.structural = false → ∃ clauses, text = joinWith ", " clauses ∧
      List.Forall₂ o.Tells o.failedKeys clauses) : o.Views text := by
  have hraised : o.isValid = false → o.check = .error (.invalid (ofText text) o.failedKeys) := by
    intro h
    rw [Outcome.check_invalid h, hsummary, ok_bind]
  refine ⟨hsummary, Iff.rfl, List.isEmpty_iff.symm, htext, Outcome.shown_eq_iff, ?_, fun h => ⟨hraised h, rfl⟩,
    fun h => ?_, hclauses⟩
  · by_cases hvalid : o.isValid = true
    · simp [Outcome.check, hvalid]
    · simp [hraised (by simpa using hvalid), hvalid]
  · rw [Outcome.shown, h, if_neg Bool.false_ne_true]

/-- **The views of an outcome agree**, whatever way the values were validated, against any schema of
plain data: the lengths of the values that failed must only be no faults. -/
theorem Request.views {r : Request} {o : Outcome} (hs : ∀ s ∈ r.schemas, Plain s) (h : r.run.result = .ok o)
    (hlen : ∀ k ∈ o.failedKeys, ∀ v, o.get k = .ok v → ∃ n, v.length? = .ok n) : ∃ text, o.Views text := by
  rcases Request.run_ends h with ⟨message, hmem, rfl⟩ | hc
  · refine ⟨message, Outcome.views_of_summary (errorString_structural message) ?_ fun hfalse => ?_⟩
    · exact iff_of_false (Outcome.messages_ne_empty message hmem) (by simp [Outcome.isValid, Outcome.structuralError])
    · simp [Outcome.structuralError] at hfalse
  · obtain ⟨clauses, hsummary, htells⟩ := Request.summarized hs hc hlen
    refine ⟨_, Outcome.views_of_summary hsummary ?_ fun _ => ⟨clauses, rfl, htells.imp fun k c hkc => hkc.1⟩⟩
    rw [Outcome.isValid, List.isEmpty_iff]
    cases hkeys : o.failedKeys with
    | nil =>
      rw [hkeys] at htells
      obtain rfl := List.forall₂_nil_left_iff.mp htells
      exact iff_of_true rfl rfl
    | cons key rest =>
      rw [hkeys] at htells
      obtain ⟨c, cs, hfirst, -, rfl⟩ := List.forall₂_cons_left_iff.mp htells
      exact iff_of_false (joinWith_ne_empty hfirst.2 cs) (List.cons_ne_nil key rest)

/-- A name that is a number, and an age that is left out. -/
theorem Request.views_name : ∃ o text, (Request.named (ofEntries [(ofText "name", ofInt 3)])
      (ofEntries [(ofText "name", ofText "string"), (ofText "age", ofText "natural")])).run.result = .ok o ∧
    o.Views text ∧ text = "named argument name is not a \"string\", missing named argument age" ∧
    o.truth = false ∧ o.shown = "<ValidationResult: 2 errors>" := by
  have hs : ∀ s ∈ (Request.named (ofEntries [(ofText "name", ofInt 3)])
      (ofEntries [(ofText "name", ofText "string"), (ofText "age", ofText "natural")])).schemas, Plain s :=
    List.forall_mem_singleton.mpr (plain_named ["name", "age"] rfl (by decide)
      (List.forall_mem_cons.mpr ⟨.atom _, List.forall_mem_singleton.mpr (.atom _)⟩))
  obtain ⟨o, ho, hkeys, hname, hage, hsummary⟩ : ∃ o, (Request.named (ofEntries [(ofText "name", ofInt 3)])
      (ofEntries [(ofText "name", ofText "string"), (ofText "age", ofText "natural")])).run.result = .ok o ∧
      o.failedKeys = [ofText "name", ofText "age"] ∧ o.get (ofText "name") = .ok (ofInt 3) ∧
      o.get (ofText "age") = .ok null ∧
      o.errorString = .ok (ofText "named argument name is not a \"string\", missing named argument age") :=
    ⟨_, rfl, rfl, rfl, rfl, rfl⟩
  have hlen : ∀ k ∈ o.failedKeys, ∀ v, o.get k = .ok v → ∃ n, v.length? = .ok n := by
    rw [hkeys]
    refine List.forall_mem_cons.mpr ⟨fun v hv => ?_, List.forall_mem_singleton.mpr fun v hv => ?_⟩
    · obtain rfl : ofInt 3 = v := Except.ok.inj (hname.symm.trans hv)
      exact ⟨none, rfl⟩
    · obtain rfl : null = v := Except.ok.inj (hage.symm.trans hv)
      exact ⟨none, rfl⟩
  obtain ⟨text, h⟩ := Request.views hs ho hlen
  have hinvalid : o.isValid = false := by rw [Outcome.isValid, hkeys]; rfl
  have htext : text = "named argument name is not a \"string\", missing named argument age" := by
    have he := h.summary.symm.trans hsummary
    simpa [ofText] using he
  refine ⟨o, text, ho, h, htext, hinvalid, ?_⟩
  rw [h.counted hinvalid, hkeys]
  rfl

end ArgSchema
