/-
# Outcomes and the values they share

An outcome keeps the keys that failed and the fields, but the values only by reference, and it
puts its summary together when it is asked for. So whatever a session changes later, an outcome
stays valid or not, and keeps its keys; its summary, and with it the message of its fault, is the
one that the values give by then (`outcome_outlived`).

With fields that hold nothing that can change the summary is the same just if each failed value is
empty, or not, as it was (`errorString_eq_iff`): a clause that starts to speak of a missing value,
or ceases to, differs in its first letter, and the clauses before it do not.

Key definitions: `LaterKey`, `Outcome.Becomes`, `Outcome.emptiness`, `Outcome.wording`,
`Outcome.Outlived`.
-/
import ArgSchema.Proofs.Positions
import ArgSchema.Proofs.Snapshots

namespace ArgSchema

open Value

variable {kinds : Nat → Option ObjectKind} {room : Nat}

/-- A failed key after changes. A key that holds a constraint made by hand is compared by what it
shows, so that of such keys nothing is said. -/
structure LaterKey (k k' : Value) : Prop where
  steady : Steady k → Steady k' ∧ SameKey k k'
  fixed : Fixed k → k' = k

/-- What an outcome becomes when objects in it change. -/
structure Outcome.Becomes (o o' : Outcome) : Prop where
  structural : o'.structural = o.structural
  mode : o'.mode = o.mode
  keys : List.Forall₂ LaterKey o.failedKeys o'.failedKeys
  values : Fixed o.values → o'.values = o.values
  fields : (∀ f ∈ o.fields, Fixed f.1 ∧ Fixed f.2) → o'.fields = o.fields

/-- Whether the value under a key is empty. -/
def Outcome.emptiness (o : Outcome) (key : Value) : Except Fault Bool := do (← o.get key).isEmpty

/-! ### What changes keep -/

theorem LaterKey.refl (k : Value) : LaterKey k k := ⟨fun h => ⟨h, .refl k⟩, fun _ => rfl⟩

theorem LaterKey.trans {k k' k'' : Value} (h : LaterKey k k') (h' : LaterKey k' k'') : LaterKey k k'' := by
  refine ⟨fun hk => ?_, fun hk => ?_⟩
  · obtain ⟨hk', hsame⟩ := h.steady hk
    obtain ⟨hk'', hsame'⟩ := h'.steady hk'
    exact ⟨hk'', hsame.trans hsame'⟩
  · have he := h.fixed hk
    subst he
    exact h'.fixed hk

theorem LaterKey.write {k new : Value} {id : Nat} (hk : WellKinded kinds k) (hnew : Replaces kinds id new) :
    LaterKey k (Value.write id new k) :=
  ⟨fun h => ⟨h.write hk hnew, h.sameKey hk hnew⟩, fun h => h.write hk hnew⟩

theorem entries?_write {v new : Value} {id : Nat} (hv : WellKinded kinds v) (hnew : Replaces kinds id new) :
    (Value.write id new v).entries?.isSome = v.entries?.isSome := by
  refine WellKinded.write_congr (p := fun v => v.entries?.isSome) hv hnew (fun w hw => ?_) ?_
  · cases hw <;> rfl
  · cases v <;> rfl

theorem Outcome.Becomes.refl (o : Outcome) : o.Becomes o :=
  ⟨rfl, rfl, List.forall₂_same.mpr fun k _ => .refl k, fun _ => rfl, fun _ => rfl⟩

/-- One change of an outcome. -/
theorem Outcome.Becomes.write {o o' : Outcome} {id : Nat} {new : Value} (h : o.Becomes o')
    (hwell : (Binding.outcome o').WellKinded kinds) (hnew : Replaces kinds id new) : o.Becomes (o'.write id new) := by
  obtain ⟨hkeys, hrest⟩ := List.forall_mem_append.mp hwell
  obtain ⟨hvalues, hfields⟩ := List.forall_mem_cons.mp hrest
  refine ⟨h.structural, ?_, ?_, fun hfixed => ?_, fun hfixed => ?_⟩
  · rw [← h.mode, Outcome.mode, Outcome.mode]
    show (if (Value.write id new o'.values).entries?.isSome then _ else _) = _
    rw [entries?_write hvalues hnew]
  · have hstep : List.Forall₂ LaterKey o'.failedKeys (writeItems id new o'.failedKeys) := by
      rw [writeItems_eq, List.forall₂_map_right_iff, List.forall₂_same]
      exact fun k hk => .write (hkeys k hk) hnew
    exact forall₂_trans (fun _ _ _ hk hk' => hk.trans hk') h.keys hstep
  · have he := h.values hfixed
    have hwrite := hfixed.write (he ▸ hvalues) hnew
    show Value.write id new o'.values = o.values
    rw [he, hwrite]
  · have he := h.fields hfixed
    have hsame : ∀ f ∈ o'.fields, changed id new f = f := by
      intro f hf
      obtain ⟨hkey, hspec⟩ := forall_entries.mp hfields f hf
      obtain ⟨hkfixed, hsfixed⟩ := hfixed f (he ▸ hf)
      exact Prod.ext (hkfixed.write hkey hnew) (hsfixed.write hspec hnew)
    show writeEntries id new o'.fields = o.fields
    rw [writeEntries_eq, ← he]
    exact (List.map_congr_left hsame).trans (List.map_id _)

theorem Outcome.Becomes.isValid {o o' : Outcome} (h : o.Becomes o') : o'.isValid = o.isValid :=
  forall₂_isEmpty h.keys

theorem Outcome.Becomes.shown {o o' : Outcome} (h : o.Becomes o') : o'.shown = o.shown := by
  rw [Outcome.shown, Outcome.shown, h.isValid, h.keys.length_eq]

/-- Keys that hold nothing that can change are the same ones. -/
theorem laterKeys_fixed {ks ks' : List Value} (h : List.Forall₂ LaterKey ks ks') : (∀ k ∈ ks, Fixed k) → ks' = ks := by
  induction h with
  | nil => exact fun _ => rfl
  | cons hk _ ih =>
    intro hfixed
    obtain ⟨hfirst, hrest⟩ := List.forall_mem_cons.mp hfixed
    rw [hk.fixed hfirst, ih hrest]

/-! ### Clauses -/

namespace Outcome

/-- What a failed key is reported as, by whether its value is empty. -/
def wording (mode : Mode) (empty : Bool) (key spec : Value) : Except Fault String := do
  if empty then .ok ("missing " ++ mode.name ++ " argument " ++ key.plain)
  else
    let d ← (← spec.constraint).describe
    .ok (mode.name ++ " argument " ++ key.plain ++ " is not a \"" ++ d.plain ++ "\"")

/-- The letter that a clause starts with. -/
def letter (mode : Mode) (empty : Bool) : Char :=
  if empty then 'm' else match mode with
    | .named => 'n'
    | .positional => 'p'

theorem letter_injective (mode : Mode) : Function.Injective (letter mode) := by
  intro empty empty'
  cases mode <;> cases empty <;> cases empty' <;> decide

theorem wording_letter {mode : Mode} {empty : Bool} {key spec : Value} {c : String}
    (h : wording mode empty key spec = .ok c) : ∃ rest, c.toList = letter mode empty :: rest := by
  unfold wording at h
  split at h
  · rw [← Except.ok.inj h]
    cases mode <;> exact ⟨_, by simp [letter, *]; rfl⟩
  · obtain ⟨constraint, -, h⟩ := bind_eq_ok.mp h
    obtain ⟨d, -, h⟩ := bind_eq_ok.mp h
    rw [← Except.ok.inj h]
    cases mode <;> exact ⟨_, by simp [letter, *]; rfl⟩

/-- The values enter a clause only as whether the value under its key is empty. -/
theorem clauseFor_eq_ok {o : Outcome} {key : Value} {c : String} : o.clauseFor key = .ok c ↔
    ∃ empty spec, o.emptiness key = .ok empty ∧ Value.lookup? o.fields key = .ok (some spec) ∧
      wording o.mode empty key spec = .ok c := by
  unfold clauseFor emptiness
  constructor
  · intro h
    obtain ⟨v, hv, h⟩ := bind_eq_ok.mp h
    obtain ⟨found, hfound, h⟩ := bind_eq_ok.mp h
    cases found with
    | none => cases h
    | some spec =>
      obtain ⟨empty, hempty, h⟩ := bind_eq_ok.mp h
      exact ⟨empty, spec, bind_eq_ok.mpr ⟨v, hv, hempty⟩, hfound, h⟩
  · rintro ⟨empty, spec, hempty, hfound, h⟩
    obtain ⟨v, hv, hempty⟩ := bind_eq_ok.mp hempty
    exact bind_eq_ok.mpr ⟨v, hv, bind_eq_ok.mpr ⟨some spec, hfound, bind_eq_ok.mpr ⟨empty, hempty, h⟩⟩⟩

/-- With the fields kept, the clause of a key is the same if its value is empty, or not, as it was. -/
theorem clauseFor_same {o o' : Outcome} {key : Value} {c : String} (hmode : o'.mode = o.mode)
    (hfields : o'.fields = o.fields) (he : o'.emptiness key = o.emptiness key) (h : o.clauseFor key = .ok c) :
    o'.clauseFor key = .ok c := by
  obtain ⟨empty, spec, hempty, hfound, hc⟩ := clauseFor_eq_ok.mp h
  exact clauseFor_eq_ok.mpr ⟨empty, spec, he.trans hempty, hfields ▸ hfound, hmode ▸ hc⟩

end Outcome

theorem mapM_eq_ok {α β : Type} {f : α → Except Fault β} : ∀ {xs : List α} {ys : List β},
    xs.mapM f = .ok ys ↔ List.Forall₂ (fun x y => f x = .ok y) xs ys
  | [], ys => by simp [pure, Except.pure, eq_comm]
  | x :: xs, ys => by
    rw [List.mapM_cons, bind_eq_ok, List.forall₂_cons_left_iff]
    refine exists_congr fun y => ?_
    rw [bind_eq_ok]
    constructor
    · rintro ⟨hy, rest, hrest, h⟩
      exact ⟨rest, hy, mapM_eq_ok.mp hrest, (Except.ok.inj h).symm⟩
    · rintro ⟨rest, hy, hrest, rfl⟩
      exact ⟨hy, rest, mapM_eq_ok.mpr hrest, rfl⟩

/-- Joined texts, each with the separator before it. -/
theorem toList_joinWith (sep : String) : ∀ {cs : List String}, cs ≠ [] →
    sep.toList ++ (joinWith sep cs).toList = cs.flatMap fun c => sep.toList ++ c.toList
  | [c], _ => by rw [joinWith, String.intercalate_singleton, List.flatMap_singleton]
  | c :: d :: rest, _ => by
    have ih := toList_joinWith sep (List.cons_ne_nil d rest)
    rw [joinWith] at ih ⊢
    rw [String.intercalate_cons_cons, String.toList_append, String.toList_append, List.flatMap_cons, ← ih]
    simp only [List.append_assoc]

/-- Joined texts give back the texts with the separator before each, if their number is known. -/
theorem flatMap_of_joinWith {sep : String} {cs cs' : List String} (hlength : cs'.length = cs.length)
    (h : joinWith sep cs' = joinWith sep cs) :
    (cs'.flatMap fun c => sep.toList ++ c.toList) = cs.flatMap fun c => sep.toList ++ c.toList := by
  by_cases hcs : cs = []
  · rw [hcs, List.length_eq_zero_iff.mp (hlength.trans (congrArg List.length hcs))]
  · have hcs' : cs' ≠ [] := fun he => hcs (List.length_eq_zero_iff.mp (hlength.symm.trans (congrArg List.length he)))
    rw [← toList_joinWith sep hcs, ← toList_joinWith sep hcs', h]

/-- Clauses that join to the same text are about values that are empty, or not, alike. -/
theorem emptiness_of_clauses {o o' : Outcome} (hmode : o'.mode = o.mode) (hfields : o'.fields = o.fields)
    (sep : String) : ∀ {keys : List Value} {cs cs' : List String},
    List.Forall₂ (fun k c => o.clauseFor k = .ok c) keys cs → List.Forall₂ (fun k c => o'.clauseFor k = .ok c) keys cs' →
    (cs'.flatMap fun c => sep.toList ++ c.toList) = (cs.flatMap fun c => sep.toList ++ c.toList) →
    ∀ k ∈ keys, o'.emptiness k = o.emptiness k
  | [], _, _, _, _, _ => by simp
  | k :: keys, c :: cs, c' :: cs', .cons hc hcs, .cons hc' hcs', h => by
    rw [List.flatMap_cons, List.flatMap_cons, List.append_assoc, List.append_assoc, List.append_cancel_left_eq] at h
    obtain ⟨empty, spec, hempty, -, hw⟩ := Outcome.clauseFor_eq_ok.mp hc
    obtain ⟨empty', spec', hempty', -, hw'⟩ := Outcome.clauseFor_eq_ok.mp hc'
    obtain ⟨rest, hrest⟩ := Outcome.wording_letter hw
    obtain ⟨rest', hrest'⟩ := Outcome.wording_letter hw'
    -- the texts agree where the two clauses start, although they might end at different places
    have hletter : Outcome.letter o.mode empty' = Outcome.letter o.mode empty := by
      rw [hrest, hrest', hmode, List.cons_append, List.cons_append] at h
      exact (List.cons.inj h).1
    have he : o'.emptiness k = o.emptiness k := by
      rw [hempty, hempty', Outcome.letter_injective o.mode hletter]
    have hsame : c' = c := Except.ok.inj (hc'.symm.trans (Outcome.clauseFor_same hmode hfields he hc))
    rw [hsame, List.append_cancel_left_eq] at h
    exact List.forall_mem_cons.mpr ⟨he, emptiness_of_clauses hmode hfields sep hcs hcs' h⟩

/-- **When a summary stays the same.** With the keys and the fields kept, an outcome has the same
summary just if each failed value is empty, or not, as it was. -/
theorem errorString_eq_iff {o o' : Outcome} {summary : Value} (hs : o.structural = false) (hs' : o'.structural = false)
    (hmode : o'.mode = o.mode) (hkeys : o'.failedKeys = o.failedKeys) (hfields : o'.fields = o.fields)
    (h : o.errorString = .ok summary) :
    o'.errorString = .ok summary ↔ ∀ k ∈ o.failedKeys, o'.emptiness k = o.emptiness k := by
  have hsummary : ∀ {x : Outcome} {summary : Value}, x.structural = false → (x.errorString = .ok summary ↔
      ∃ cs, x.failedKeys.mapM x.clauseFor = .ok cs ∧ ofText (joinWith ", " cs) = summary) := by
    intro x summary hx
    rw [Outcome.errorString, hx, if_neg Bool.false_ne_true, bind_eq_ok]
    simp only [Except.ok.injEq]
  obtain ⟨cs, hcs, rfl⟩ := (hsummary hs).mp h
  rw [hsummary hs', hkeys]
  constructor
  · rintro ⟨cs', hcs', htext⟩
    rw [mapM_eq_ok] at hcs hcs'
    have hjoined : joinWith ", " cs' = joinWith ", " cs := by simpa [ofText] using htext
    have hlength : cs'.length = cs.length := hcs'.length_eq.symm.trans hcs.length_eq
    exact emptiness_of_clauses hmode hfields ", " hcs hcs' (flatMap_of_joinWith hlength hjoined)
  · intro he
    refine ⟨cs, (mapM_congr fun k hk => ?_).trans hcs, rfl⟩
    obtain ⟨c, hc⟩ := mapM_iff.mp ⟨cs, hcs⟩ k hk
    exact (Outcome.clauseFor_same hmode hfields (he k hk) hc).trans hc.symm

/-! ### Outcomes in sessions -/

/-- What a session answers about an outcome, next to what it would have answered right away. -/
structure Outcome.Outlived (o o' : Outcome) : Prop where
  valid : o'.isValid = o.isValid
  shown : o'.shown = o.shown
  keys : List.Forall₂ LaterKey o.failedKeys o'.failedKeys
  /-- The fault of the check always brings the summary as it is by then. -/
  check : o'.isValid = false → o'.check = (do .error (.invalid (← o'.errorString) o'.failedKeys))
  /-- Outcomes without failed fields have one summary. -/
  settled : o.isValid = true ∨ o.structural = true → o'.errorString = o.errorString ∧ o'.check = o.check
  /-- If nothing that it holds can change, the outcome is the same. -/
  fixed : Fixed o.values → (∀ f ∈ o.fields, Fixed f.1 ∧ Fixed f.2) → o' = o
  /-- With fields that cannot change the summary is the same just if the same values are empty. -/
  summary : ∀ {text}, o.structural = false → (∀ f ∈ o.fields, Fixed f.1 ∧ Fixed f.2) → o.errorString = .ok text →
    (o'.errorString = .ok text ↔ ∀ k ∈ o.failedKeys, o'.emptiness k = o.emptiness k)

theorem Outcome.check_invalid {o : Outcome} (h : o.isValid = false) :
    o.check = (do .error (.invalid (← o.errorString) o.failedKeys)) := by
  rw [Outcome.check, h, if_neg Bool.false_ne_true]

theorem Outcome.errorString_valid {o : Outcome} (hs : o.structural = false) (h : o.isValid = true) :
    o.errorString = .ok (ofText "") := by
  rw [Outcome.errorString, hs, List.isEmpty_iff.mp h]
  rfl

theorem fixed_ofText (text : String) : Fixed (ofText text) := .intro rfl fun w hw => by cases hw

/-- The outcome of a request, whatever it has become. -/
theorem Request.outlived {r : Request} {o o' : Outcome} (ho : r.run.result = .ok o) (h : o.Becomes o') :
    o.Outlived o' := by
  have hkeys : (∀ f ∈ o.fields, Fixed f.1 ∧ Fixed f.2) → o'.failedKeys = o.failedKeys := by
    intro hfixed
    refine laterKeys_fixed h.keys ?_
    rcases Request.run_cases ho with ⟨message, rfl⟩ | hc
    · exact List.forall_mem_singleton.mpr (fixed_ofText message)
    · intro k hk
      obtain ⟨f, hf, rfl⟩ := List.mem_map.mp (failingKeys_mem hc.failing k hk)
      exact (hfixed f hf).1
  have hsame : Fixed o.values → (∀ f ∈ o.fields, Fixed f.1 ∧ Fixed f.2) → o' = o := by
    intro hvalues hfields
    obtain ⟨keys, values, fields, structural⟩ := o
    obtain ⟨keys', values', fields', structural'⟩ := o'
    rw [Outcome.mk.injEq]
    exact ⟨hkeys hfields, h.values hvalues, h.fields hfields, h.structural⟩
  refine ⟨h.isValid, h.shown, h.keys, Outcome.check_invalid, fun hsettled => ?_, hsame, ?_⟩
  · rcases Request.run_cases ho with ⟨message, rfl⟩ | hc
    · rw [hsame (.intro rfl fun w hw => by cases hw) fun f hf => by cases hf]
      exact ⟨rfl, rfl⟩
    · have hvalid : o.isValid = true := by simpa [hc.structural] using hsettled
      have hvalid' : o'.isValid = true := h.isValid.trans hvalid
      rw [Outcome.errorString_valid hc.structural hvalid,
        Outcome.errorString_valid (h.structural.trans hc.structural) hvalid', Outcome.check, Outcome.check, hvalid,
        hvalid']
      exact ⟨rfl, rfl⟩
  · intro text hs hfields htext
    exact errorString_eq_iff hs (h.structural.trans hs) h.mode (hkeys hfields) (h.fields hfields) htext

/-- **What stays of an outcome.** However the objects of a session are changed by any steps after a
validation, its outcome stays valid or not and keeps its failed keys. Its summary, and with it the
message of its fault, is the one that the values give by then. -/
theorem outcome_outlived {s : Session} {steps : List Step} {name : String} {r : Request} {o : Outcome}
    (hs : s.WellKinded kinds) (hvalidate : (Step.validate (some name) r).WellKinded kinds)
    (ho : r.run.result = .ok o) (hsteps : ∀ st ∈ steps, st.WellKinded kinds ∧ st.name? ≠ some name) :
    ∃ o', ((s.step room (.validate (some name) r)).1.run room steps).find? name = some (.outcome o') ∧ o.Outlived o' := by
  have hfirst : (s.step room (.validate (some name) r)).1.find? name = some (.outcome o) := by
    rw [Session.step, ho]
    exact List.lookup_cons_self
  obtain ⟨b, hb, o', rfl, h⟩ := Session.run_keeps (P := fun b => ∃ o', b = .outcome o' ∧ o.Becomes o')
    (fun b id new hb hP hnew => by
      obtain ⟨o', rfl, h⟩ := hP
      exact ⟨o'.write id new, rfl, h.write hb hnew⟩)
    (Session.step_wellKinded hs hvalidate) hsteps hfirst ⟨o, rfl, .refl o⟩
  exact ⟨o', hb, Request.outlived ho h⟩

/-- An outcome over a mapping that is changed later on, inside and at its top, and still tells what it
told: the values that failed are other ones, and no more empty than they were. -/
theorem outcome_outlived_nested : ∃ (s : Session) (d schema : Value) (o o' : Outcome) (steps : List Step),
    d = .mapping .dict 1 [(ofText "a", ofInt 1), (ofText "b", .mapping .dict 2 [(ofText "c", ofInt 1)])] ∧
    schema = .mapping .dict 3 [(ofText "a", ofText "string"),
      (ofText "b", .mapping .dict 4 [(ofText "c", ofText "string")])] ∧
    s = ⟨[("d", .value d)]⟩ ∧ (Request.namedStrictly d schema).run.result = .ok o ∧
    steps = [.edit "d" 5 [ofText "b"] (.put (ofText "c") (ofText "x")), .edit "d" 5 [] (.put (ofText "a") (ofInt 2))] ∧
    ((s.step 1000 (.validate (some "r") (.namedStrictly d schema))).1.run 1000 steps).find? "r" = some (.outcome o') ∧
    o'.failedKeys = [ofText "a", ofText "b"] ∧ (∀ k ∈ o.failedKeys, o'.emptiness k = o.emptiness k) ∧
    o.Outlived o' := by
  let kinds : Nat → Option ObjectKind := fun i => if i = 5 then some (.collection .list) else some (.mapping .dict)
  let nested (i : Nat) (x : Value) : Value := .mapping .dict i [(ofText "c", x)]
  let d : Value := .mapping .dict 1 [(ofText "a", ofInt 1), (ofText "b", nested 2 (ofInt 1))]
  let schema : Value := .mapping .dict 3 [(ofText "a", ofText "string"), (ofText "b", nested 4 (ofText "string"))]
  have htext : ∀ t, WellKinded kinds (ofText t) := wellKinded_ofText
  have hint : ∀ i, WellKinded kinds (ofInt i) := wellKinded_ofInt
  have hd : WellKinded kinds d := by
    have hb : WellKinded kinds (nested 2 (ofInt 1)) :=
      wellKinded_mapping rfl (List.forall_mem_singleton.mpr ⟨htext _, hint _⟩)
    refine wellKinded_mapping rfl fun e he => ?_
    rcases List.mem_pair.mp he with rfl | rfl
    · exact ⟨htext _, hint _⟩
    · exact ⟨htext _, hb⟩
  have hschema : WellKinded kinds schema := by
    have hb : WellKinded kinds (nested 4 (ofText "string")) :=
      wellKinded_mapping rfl (List.forall_mem_singleton.mpr ⟨htext _, htext _⟩)
    refine wellKinded_mapping rfl fun e he => ?_
    rcases List.mem_pair.mp he with rfl | rfl
    · exact ⟨htext _, htext _⟩
    · exact ⟨htext _, hb⟩
  have hs : (Session.empty.run 1000 [.assign "d" d]).WellKinded kinds :=
    Session.run_wellKinded Session.wellKinded_empty (List.forall_mem_singleton.mpr hd)
  have hvalidate : (Step.validate (some "r") (.namedStrictly d schema)).WellKinded kinds :=
    ⟨hd, List.forall_mem_singleton.mpr hschema⟩
  have hsteps : ∀ st ∈ [Step.edit "d" 5 [ofText "b"] (.put (ofText "c") (ofText "x")),
      .edit "d" 5 [] (.put (ofText "a") (ofInt 2))], st.WellKinded kinds ∧ st.name? ≠ some "r" := by
    have hedit : ∀ {path e}, (∀ k ∈ path, WellKinded kinds k) → (∀ v ∈ Edit.contents e, WellKinded kinds v) →
        (Step.edit "d" 5 path e).WellKinded kinds ∧ (Step.edit "d" 5 path e).name? ≠ some "r" :=
      fun hpath he => ⟨⟨rfl, hpath, he⟩, by simp [Step.name?]⟩
    simp only [List.forall_mem_cons, List.not_mem_nil, false_implies, implies_true, and_true]
    refine ⟨hedit ?_ ?_, hedit ?_ ?_⟩ <;> simp [Edit.contents, htext, hint]
  obtain ⟨o', ho', h⟩ := outcome_outlived hs hvalidate rfl hsteps
  refine ⟨_, d, schema, _, o', _, rfl, rfl, rfl, rfl, rfl, ho', ?_, ?_, h⟩
  · cases ho'
    rfl
  · cases ho'
    exact List.forall_mem_cons.mpr ⟨rfl, List.forall_mem_singleton.mpr rfl⟩

/-- **A summary that is overtaken.** After the one failed value is made empty, the outcome says that
it is missing, which it was not. -/
theorem errorString_overtaken : ∃ (s s' : Session) (d : Value) (o o' : Outcome),
    d = .mapping .dict 1 [(ofText "a", ofInt 1)] ∧
    s = ((⟨[("d", .value d)]⟩ : Session).step 1000
      (.validate (some "r") (.namedStrictly d (ofEntries [(ofText "a", ofText "string")])))).1 ∧
    s' = s.run 1000 [.edit "d" 2 [] (.put (ofText "a") (ofText ""))] ∧
    s.find? "r" = some (.outcome o) ∧ s'.find? "r" = some (.outcome o') ∧
    o.errorString = .ok (ofText "named argument a is not a \"string\"") ∧
    o'.errorString = .ok (ofText "missing named argument a") ∧
    o.check = .error (.invalid (ofText "named argument a is not a \"string\"") [ofText "a"]) ∧
    o'.check = .error (.invalid (ofText "missing named argument a") [ofText "a"]) :=
  ⟨_, _, _, _, _, rfl, rfl, rfl, rfl, rfl, rfl, rfl, rfl, rfl⟩

end ArgSchema
