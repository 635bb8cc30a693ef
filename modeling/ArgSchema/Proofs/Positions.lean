/-
# Values by position and by name

An ordered sequence is validated like the mapping of its items under their positions. A
look-up by index and a look-up by key find the same value, null past the end
(`Sequence.get_eq`, `valueAt_byPosition`), so the same fields fail with the same records
inside. What differs is the mode: it stands in the outermost record, and in the summary
once for each clause (`Outcome.errorString_eq`).

`validatePositional_byPosition` puts the two validations side by side: both are structural,
both stop with one fault, or they end in outcomes that mirror each other.

Key definitions: `Sequence.elements`, `Sequence.byPosition`, `Outcome.summaryIn`,
`Outcome.Mirrors`.
-/
import ArgSchema.Proofs.BuiltSchemas

namespace ArgSchema

open Value

/-! ### Looking up a position -/

/-- All items of a sequence, however many they are. -/
def Sequence.elements : Sequence → List Value
  | .items xs => xs
  | .range start stop step => rangeItems start stop step

/-- The mapping of the items of a sequence under their positions. -/
def Sequence.byPosition (xs : Sequence) : Value := ofEntries (indexed 0 xs.elements)

theorem rangeItems_getElem? (start stop step : Int) (i : Nat) :
    (rangeItems start stop step)[i]? =
      if i < rangeLength start stop step then some (ofInt (start + step * i)) else none := by
  unfold rangeItems
  rw [List.getElem?_map]
  by_cases hi : i < rangeLength start stop step
  · rw [List.getElem?_range hi, if_pos hi]
    rfl
  · rw [List.getElem?_eq_none (by simpa using hi), if_neg hi]
    rfl

/-- The item that a sequence has under a key, if its length is no fault: a key that is no
integer, or counts to no item, has null. -/
theorem Sequence.get_eq {v : Value} {xs : Sequence} (hxs : v.sequence? = some xs)
    (hlen : ∃ n, v.length? = .ok n) (key : Value) :
    xs.get key = .ok (match key.int? with
      | none => null
      | some i => if i < 0 then null else (xs.elements[i.toNat]?).getD null) := by
  unfold Sequence.get
  cases hkey : key.int? with
  | none => rfl
  | some i =>
    simp only
    by_cases hneg : i < 0
    · rw [if_pos hneg, if_pos hneg]
    rw [if_neg hneg, if_neg hneg]
    cases xs with
    | items items => rfl
    | range start stop step =>
      have hlen' : ∃ n, Atom.length? (.range start stop step) = .ok n := by
        rw [sequence?_range hxs] at hlen
        exact hlen
      have hsize := (measured_atom hlen').rangeSize
      have hcast : ((i.toNat : Nat) : Int) = i := Int.toNat_of_nonneg (by omega)
      simp only [hsize, ok_bind, Sequence.elements, rangeItems_getElem?, hcast]
      have hlt : i < (rangeLength start stop step : Int) ↔ i.toNat < rangeLength start stop step := by omega
      by_cases hi : i < (rangeLength start stop step : Int)
      · rw [if_pos hi, if_pos (hlt.mp hi)]
        rfl
      · rw [if_neg hi, if_neg (mt hlt.mpr hi)]
        rfl

/-- An integer of any kind is looked up as the number that it is. -/
theorem key_of_int? {key : Value} {i : Int} (h : key.int? = some i) : key.key = .ok [.number i] := by
  cases key with
  | atom a =>
    cases a with
    | bool b =>
      obtain rfl : (if b then 1 else 0) = i := by simpa [int?] using h
      cases b <;> rfl
    | int kind n =>
      obtain rfl : n = i := by simpa [int?] using h
      rfl
    | _ => simp [int?] at h
  | _ => simp [int?] at h

theorem find?_indexed (i : Int) : ∀ (xs : List Value) (j : Nat),
    Entries.find? [.number i] (indexed j xs) = if i < j then none else xs[(i - j).toNat]?
  | [], j => by
    rw [indexed, Entries.find?]
    split <;> simp
  | x :: xs, j => by
    have ih := find?_indexed i xs (j + 1)
    have hkey : (ofInt j).hasKey [.number i] = decide (i = j) := by
      rw [hasKey_of_key (key_ofInt j)]
      by_cases heq : i = j
      · subst heq
        simp
      · have hne : ([.number ((j : Int) : Rat)] : Key) ≠ [.number (i : Rat)] := by
          intro h
          obtain ⟨h⟩ := List.cons.inj h
          exact heq (Rat.intCast_inj.mp (KeyToken.number.inj h)).symm
        rw [decide_eq_false heq]
        exact beq_eq_false_iff_ne.mpr hne
    rw [indexed, Entries.find?, hkey, ih]
    by_cases heq : i = j
    · subst heq
      simp
    · by_cases hlt : i < j
      · have hlt' : i < ((j + 1 : Nat) : Int) := by omega
        rw [if_pos hlt, if_pos hlt', decide_eq_false heq]
        rfl
      · have hge : ¬ i < ((j + 1 : Nat) : Int) := by omega
        have hpos : (i - j).toNat = (i - ((j + 1 : Nat) : Int)).toNat + 1 := by omega
        rw [if_neg hlt, if_neg hge, decide_eq_false heq, hpos, List.getElem?_cons_succ]
        rfl

/-- Under an integer the mapping of items holds what the sequence has there. -/
theorem valueAt_byPosition {v key : Value} {xs : Sequence} {i : Int} (hxs : v.sequence? = some xs)
    (hlen : ∃ n, v.length? = .ok n) (hkey : key.int? = some i) :
    valueAt (indexed 0 xs.elements) key = xs.get key := by
  rw [Sequence.get_eq hxs hlen, hkey, valueAt, lookup?, key_of_int? hkey, ok_bind, ok_bind, find?_indexed]
  by_cases hneg : i < 0
  · simp [hneg]
  · simp [hneg]

/-! ### Checks of fields -/

/-- Fields fail alike if the value of each of them has the same outcome, records included. -/
theorem failingKeys_congr {value value' : Value → Except Fault Value} : ∀ {fields : Entries},
    (∀ f ∈ fields, (Traced.lift (value f.1) >>= fun v => fieldResult v f.2) =
      (Traced.lift (value' f.1) >>= fun v => fieldResult v f.2)) →
    failingKeys value fields = failingKeys value' fields
  | [], _ => by rw [failingKeys, failingKeys]
  | (k, x) :: rest, h => by
    have hfirst := h (k, x) List.mem_cons_self
    have hrest := failingKeys_congr fun f hf => h f (List.mem_cons_of_mem _ hf)
    have hbind := congrArg (· >>= fun outcome => do
      let ok ← Traced.lift outcome.truth
      let keys ← failingKeys value' rest
      Pure.pure (if ok then keys else k :: keys)) hfirst
    rw [failingKeys, failingKeys, hrest]
    simpa only [bind_assoc] using hbind

section

variable {mode : Mode} {v : Value} {fields : Entries} {value : Value → Except Fault Value} {log : List Record}

theorem checkFields_of_error {fault : Fault} (h : failingKeys value fields = ⟨log, .error fault⟩) :
    checkFields mode v fields value = ⟨log, .error fault⟩ := by
  rw [checkFields, h]
  rfl

/-- The record of a check comes behind those of the checks inside it. -/
theorem checkFields_of_ok {keys : List Value} (h : failingKeys value fields = ⟨log, .ok keys⟩) :
    checkFields mode v fields value = ⟨log ++ (report mode keys).log, .ok ⟨keys, v, fields, false⟩⟩ := by
  have hreport : report mode keys = ⟨(report mode keys).log, .ok ()⟩ := by
    rw [← result_report mode keys]
  have hrest : (do report mode keys; Pure.pure (Outcome.mk keys v fields false) : Traced Outcome) =
      ⟨(report mode keys).log, .ok ⟨keys, v, fields, false⟩⟩ := by
    rw [hreport]
    exact congrArg (Traced.mk · _) (List.append_nil _)
  rw [checkFields, h]
  show Traced.bind ⟨log, .ok keys⟩ _ = _
  rw [Traced.bind]
  simp only [hrest]

end

/-! ### Summaries up to the mode -/

namespace Outcome

/-- What a failed field is reported as, before and behind the word for the mode. -/
def frame (v key spec : Value) : Except Fault (String × String) := do
  if ← v.isEmpty then .ok ("missing ", " argument " ++ key.plain)
  else
    let d ← (← spec.constraint).describe
    .ok ("", " argument " ++ key.plain ++ " is not a \"" ++ d.plain ++ "\"")

/-- The clause of a failed field, with the word for a mode in its place. -/
def word (mode : Mode) (frame : String × String) : String := frame.1 ++ mode.name ++ frame.2

/-- What a failed key of an outcome is reported as. -/
def frameFor (o : Outcome) (key : Value) : Except Fault (String × String) := do
  let v ← o.get key
  match ← lookup? o.fields key with
  | some spec => frame v key spec
  | none => .error (.missingKey key)

/-- The summary of an outcome with the word for a mode that need not be its own. -/
def summaryIn (o : Outcome) (mode : Mode) : Except Fault Value := do
  let frames ← o.failedKeys.mapM o.frameFor
  .ok (ofText (joinWith ", " (frames.map (word mode))))

theorem clause_eq (mode : Mode) (v key spec : Value) :
    clause mode v key spec = (do .ok (word mode (← frame v key spec))) := by
  unfold clause frame
  cases v.isEmpty with
  | error fault => rfl
  | ok empty =>
    cases empty with
    | true => simp [word, String.append_assoc]
    | false =>
      cases spec.constraint with
      | error fault => rfl
      | ok c => cases hd : c.describe <;> simp [hd, word, String.append_assoc]

theorem clauseFor_eq (o : Outcome) (key : Value) :
    o.clauseFor key = (do .ok (word o.mode (← o.frameFor key))) := by
  unfold clauseFor frameFor
  cases o.get key with
  | error fault => rfl
  | ok v =>
    cases lookup? o.fields key with
    | error fault => rfl
    | ok spec =>
      cases spec with
      | none => rfl
      | some spec => exact clause_eq o.mode v key spec

end Outcome

theorem mapM_bind_ok {α β γ : Type} (f : α → Except Fault β) (g : β → γ) : ∀ xs : List α,
    (xs.mapM fun x => do .ok (g (← f x))) = (do .ok ((← xs.mapM f).map g))
  | [] => by simp [pure, Except.pure]
  | x :: xs => by
    rw [List.mapM_cons, List.mapM_cons, mapM_bind_ok f g xs]
    cases f x with
    | error fault => rfl
    | ok y => cases xs.mapM f <;> rfl

/-- The mode enters a summary only as the word for it. -/
theorem Outcome.errorString_eq {o : Outcome} (h : o.structural = false) : o.errorString = o.summaryIn o.mode := by
  have hclauses : o.failedKeys.mapM o.clauseFor =
      (do .ok ((← o.failedKeys.mapM o.frameFor).map (word o.mode))) := by
    rw [← mapM_bind_ok]
    exact congrArg (o.failedKeys.mapM ·) (funext o.clauseFor_eq)
  unfold errorString summaryIn
  rw [h, if_neg (by decide), hclauses]
  cases o.failedKeys.mapM o.frameFor <;> rfl

theorem mapM_congr {α β : Type} {f g : α → Except Fault β} : ∀ {xs : List α}, (∀ x ∈ xs, f x = g x) →
    xs.mapM f = xs.mapM g
  | [], _ => by rw [List.mapM_nil, List.mapM_nil]
  | x :: xs, h => by
    rw [List.mapM_cons, List.mapM_cons, h x List.mem_cons_self,
      mapM_congr fun y hy => h y (List.mem_cons_of_mem _ hy)]

/-- Outcomes over the same fields have the same summaries up to the mode if each failed key
has the same value. -/
theorem Outcome.summaryIn_congr (o o' : Outcome) (hfields : o'.fields = o.fields)
    (hkeys : o'.failedKeys = o.failedKeys) (hget : ∀ k ∈ o.failedKeys, o'.get k = o.get k) (mode : Mode) :
    o'.summaryIn mode = o.summaryIn mode := by
  have hframes : ∀ k ∈ o.failedKeys, o'.frameFor k = o.frameFor k := fun k hk => by
    rw [frameFor, frameFor, hget k hk, hfields]
  rw [summaryIn, summaryIn, hkeys, mapM_congr hframes]

/-! ### Positional schemas -/

theorem keys_indexed : ∀ (xs : List Value) (i : Nat),
    (indexed i xs).map Prod.fst = (List.range' i xs.length).map fun (n : Nat) => ofInt n
  | [], _ => rfl
  | x :: xs, i => by
    rw [indexed, List.map_cons, keys_indexed xs (i + 1), List.length_cons, List.range'_succ, List.map_cons]

theorem listItems?_some {s : Value} {items : List Value} (h : s.listItems? = some items) :
    ∃ kind id, s = .collection kind id items ∧ kind.isListOrTuple = true := by
  cases s with
  | collection kind id xs =>
    by_cases hkind : kind.isListOrTuple
    · obtain rfl : xs = items := by simpa [listItems?, hkind] using h
      exact ⟨kind, id, rfl, hkind⟩
    · simp [listItems?, hkind] at h
  | _ => simp [listItems?] at h

/-- A list or a tuple normalizes item by item, under the positions. -/
theorem toFields_listItems {s : Value} {items : List Value} (h : s.listItems? = some items) :
    s.toFields = normalizeEntries (indexed 0 items) ∧ isNamedSchema s = false := by
  obtain ⟨kind, id, rfl, hkind⟩ := listItems?_some h
  exact ⟨by rw [toFields, if_pos hkind, normalizeItems_eq], rfl⟩

/-- Keys in the order of a positional schema are positions in ascending order. -/
theorem positions_of_sublist {keys items : List Value} (h : keys.Sublist ((indexed 0 items).map Prod.fst)) :
    ∃ positions : List Nat, positions.Pairwise (· < ·) ∧ (∀ i ∈ positions, i < items.length) ∧
      keys = positions.map fun (i : Nat) => ofInt i := by
  rw [keys_indexed] at h
  obtain ⟨positions, hsub, rfl⟩ := List.sublist_map_iff.mp h
  have hascending : (List.range' 0 items.length).Pairwise (· < ·) := List.pairwise_lt_range'
  refine ⟨positions, hascending.sublist hsub, fun i hi => ?_, rfl⟩
  have hmem := hsub.subset hi
  rw [List.mem_range'_1] at hmem
  omega

/-! ### The two validations -/

/-- Two outcomes over the same values, by position and by name. The same positions fail, in
ascending order and below `size`; under every integer they have the same value; and the
summaries differ in the word for the mode. -/
structure Outcome.Mirrors (o o' : Outcome) (size : Nat) : Prop where
  structural : o.structural = false ∧ o'.structural = false
  positions : ∃ positions : List Nat, positions.Pairwise (· < ·) ∧ (∀ i ∈ positions, i < size) ∧
    o.failedKeys = positions.map fun (i : Nat) => ofInt i
  keys : o'.failedKeys = o.failedKeys
  get : ∀ (key : Value) (i : Int), key.int? = some i → o'.get key = o.get key
  summary : o.errorString = o.summaryIn .positional ∧ o'.errorString = o.summaryIn .named

/-- Outcomes with the same failed positions, over a sequence and over its mapping. -/
theorem mirrors_byPosition {v : Value} {xs : Sequence} {items keys : List Value} {fields : Entries}
    (hxs : v.sequence? = some xs) (hlen : ∃ n, v.length? = .ok n)
    (hkeys : keys.Sublist ((indexed 0 items).map Prod.fst)) :
    (Outcome.mk keys v fields false).Mirrors (Outcome.mk keys xs.byPosition fields false) items.length := by
  obtain ⟨positions, hascending, hbelow, hpositions⟩ := positions_of_sublist hkeys
  have hvs : v.entries? = none := entries?_of_sequence hxs
  have hget : ∀ (key : Value) (i : Int), key.int? = some i →
      (Outcome.mk keys xs.byPosition fields false).get key = (Outcome.mk keys v fields false).get key := by
    intro key i hkey
    have hname : (Outcome.mk keys xs.byPosition fields false).get key = valueAt (indexed 0 xs.elements) key := rfl
    have hposition : (Outcome.mk keys v fields false).get key = xs.get key := by
      rw [Outcome.get, hvs, hxs]
    rw [hname, hposition, valueAt_byPosition hxs hlen hkey]
  have hfailed : ∀ k ∈ (Outcome.mk keys v fields false).failedKeys,
      (Outcome.mk keys xs.byPosition fields false).get k =
      (Outcome.mk keys v fields false).get k := by
    intro k hk
    have hk : k ∈ keys := hk
    rw [hpositions] at hk
    obtain ⟨i, -, rfl⟩ := List.mem_map.mp hk
    exact hget (ofInt i) i rfl
  have hmode : (Outcome.mk keys v fields false).mode = .positional := by
    rw [Outcome.mode, hvs]
    rfl
  refine ⟨⟨rfl, rfl⟩, ⟨positions, hascending, hbelow, hpositions⟩, rfl, hget, ?_, ?_⟩
  · rw [Outcome.errorString_eq rfl, hmode]
  · rw [Outcome.errorString_eq rfl]
    exact Outcome.summaryIn_congr ⟨keys, v, fields, false⟩ ⟨keys, xs.byPosition, fields, false⟩ rfl rfl
      hfailed .named

/-- Every key of a positional schema is a position, where both look-ups find the same value. -/
theorem failingKeys_byPosition {v : Value} {xs : Sequence} {items : List Value} {fields : Entries}
    (hxs : v.sequence? = some xs) (hlen : ∃ n, v.length? = .ok n)
    (hn : normalizeEntries (indexed 0 items) = .ok fields) :
    failingKeys xs.get fields = failingKeys (valueAt (indexed 0 xs.elements)) fields := by
  refine failingKeys_congr fun f hf => ?_
  obtain ⟨e, he, hkey, -⟩ := mem_normalizeEntries hn f hf
  obtain ⟨n, -, hposition⟩ := key_indexed he
  have hint : f.1.int? = some (n : Int) := by
    rw [hkey, hposition]
    rfl
  rw [valueAt_byPosition hxs hlen hint]

/-- Against a positional schema with fields both validations are checks of these fields. -/
theorem validations_eq_checkFields {v s : Value} {xs : Sequence} {items : List Value} {fields : Entries}
    (hitems : s.listItems? = some items) (hne : items ≠ []) (hxs : v.sequence? = some xs)
    (hn : normalizeEntries (indexed 0 items) = .ok fields) :
    validatePositional v s = checkFields .positional v fields xs.get ∧
      validateNamed xs.byPosition s =
        checkFields .named xs.byPosition fields (valueAt (indexed 0 xs.elements)) := by
  obtain ⟨htoFields, hmode⟩ := toFields_listItems hitems
  have hfields : s.toFields = .ok fields := htoFields.trans hn
  have hempty : fields.isEmpty = false := by
    rw [List.isEmpty_eq_false_iff, ne_eq, ← List.map_eq_nil_iff (f := Prod.fst), keys_normalizeEntries hn,
      keys_indexed]
    simpa using hne
  constructor
  · rw [validatePositional_some hxs hmode hfields, hempty]
    rfl
  · rw [validateNamed_some rfl hfields, hempty]
    rfl

/-- **By position as by name.** A sequence and the mapping of its items under their positions
are validated alike against a list or a tuple. Without items in it both ask for a schema.
With items both stop with one fault behind the same records, or they end in outcomes that
mirror each other, and the records differ in the mode of the outermost one. With measured
plain data there is no fault, and the summary is a text. -/
theorem validatePositional_byPosition {v s : Value} {xs : Sequence} {items : List Value}
    (hitems : s.listItems? = some items) (hxs : v.sequence? = some xs) (hlen : ∃ n, v.length? = .ok n) :
    (items = [] → validatePositional v s = pure (.structuralError Outcome.missingSpec) ∧
      validateNamed xs.byPosition s = pure (.structuralError Outcome.missingSpec)) ∧
    (items ≠ [] →
      (∃ log fault, validatePositional v s = ⟨log, .error fault⟩ ∧
        validateNamed xs.byPosition s = ⟨log, .error fault⟩) ∨
      ∃ inside o o', validatePositional v s = ⟨inside ++ (report .positional o.failedKeys).log, .ok o⟩ ∧
        validateNamed xs.byPosition s = ⟨inside ++ (report .named o.failedKeys).log, .ok o'⟩ ∧
        o.Mirrors o' items.length) ∧
    (Plain s → Measured s → Measured v → ∃ o text, (validatePositional v s).result = .ok o ∧
      o.errorString = .ok (ofText text)) := by
  obtain ⟨htoFields, hmode⟩ := toFields_listItems hitems
  have hname : xs.byPosition.entries? = some (indexed 0 xs.elements) := rfl
  refine ⟨fun hnil => ?_, fun hne => ?_, fun hs hms hmv => ?_⟩
  · have hn : s.toFields = .ok [] := by
      rw [htoFields, hnil, indexed, normalizeEntries]
    exact ⟨validatePositional_some hxs hmode hn, validateNamed_some hname hn⟩
  · cases hn : normalizeEntries (indexed 0 items) with
    | error fault =>
      have hfields : s.toFields = .error fault := htoFields.trans hn
      refine .inl ⟨[], fault, ?_, ?_⟩
      · rw [validatePositional, hxs, hmode, hfields]
        rfl
      · rw [validateNamed, hname, hfields]
        rfl
    | ok fields =>
      obtain ⟨hpositional, hnamed⟩ := validations_eq_checkFields hitems hne hxs hn
      have hsame := failingKeys_byPosition hxs hlen hn
      obtain ⟨log, result, hrun⟩ : ∃ log result, failingKeys xs.get fields = ⟨log, result⟩ := ⟨_, _, rfl⟩
      have hrun' := hsame.symm.trans hrun
      rw [hpositional, hnamed]
      cases result with
      | error fault => exact .inl ⟨log, fault, checkFields_of_error hrun, checkFields_of_error hrun'⟩
      | ok keys =>
        have hsub : keys.Sublist ((indexed 0 items).map Prod.fst) := by
          rw [← keys_normalizeEntries hn]
          exact failingKeys_sublist (congrArg Traced.result hrun)
        exact .inr ⟨log, _, _, checkFields_of_ok hrun, checkFields_of_ok hrun', mirrors_byPosition hxs hlen hsub⟩
  · obtain ⟨fields, hn, hk, hsettled⟩ := hs.fits hms
    obtain ⟨o, ho⟩ := validatePositional_total hmv ⟨fields, hn, hk, hsettled⟩
    obtain ⟨text, htext⟩ := Request.errorString_text (r := .positionalStrictly v s) ho hmv hn hk
      fun f hf => (hsettled f hf).described
    exact ⟨o, text, ho, htext⟩

/-- A list with a mapping in it against two fields: the mapping fails its nested field, and the
second position is past the end. -/
theorem validatePositional_byPosition_short :
    ∃ inside o o', validatePositional (ofList [ofEntries [(ofText "a", ofInt 1)]])
        (ofList [ofEntries [(ofText "a", ofText "string")], ofText "whole"]) =
          ⟨inside ++ (report .positional o.failedKeys).log, .ok o⟩ ∧
      validateNamed (Sequence.items [ofEntries [(ofText "a", ofInt 1)]]).byPosition
        (ofList [ofEntries [(ofText "a", ofText "string")], ofText "whole"]) =
          ⟨inside ++ (report .named o.failedKeys).log, .ok o'⟩ ∧
      o.failedKeys = [ofInt 0, ofInt 1] ∧ inside = [.failed .named [ofText "a"]] ∧ o.Mirrors o' 2 := by
  have hitems : (ofList [ofEntries [(ofText "a", ofText "string")], ofText "whole"]).listItems? =
      some [ofEntries [(ofText "a", ofText "string")], ofText "whole"] := rfl
  have hxs : (ofList [ofEntries [(ofText "a", ofInt 1)]]).sequence? =
      some (.items [ofEntries [(ofText "a", ofInt 1)]]) := rfl
  obtain ⟨-, hboth, -⟩ := validatePositional_byPosition hitems hxs ⟨some 1, rfl⟩
  have hkeys : (validatePositional (ofList [ofEntries [(ofText "a", ofInt 1)]])
      (ofList [ofEntries [(ofText "a", ofText "string")], ofText "whole"])).errors = .ok [ofInt 0, ofInt 1] := rfl
  have hlog : (validatePositional (ofList [ofEntries [(ofText "a", ofInt 1)]])
      (ofList [ofEntries [(ofText "a", ofText "string")], ofText "whole"])).log =
        [.failed .named [ofText "a"], .failed .positional [ofInt 0, ofInt 1]] := rfl
  rcases hboth (by simp) with ⟨log, fault, hfault, -⟩ | ⟨inside, o, o', hpositional, hnamed, hmirrors⟩
  · rw [hfault] at hkeys
    cases hkeys
  · rw [hpositional] at hkeys hlog
    have hfailed : o.failedKeys = [ofInt 0, ofInt 1] := Except.ok.inj hkeys
    have hreport : (report .positional o.failedKeys).log = [.failed .positional [ofInt 0, ofInt 1]] := by
      rw [hfailed]
      rfl
    have hinside : inside ++ [.failed .positional [ofInt 0, ofInt 1]] =
        [.failed .named [ofText "a"]] ++ [.failed .positional [ofInt 0, ofInt 1]] := by
      rw [← hreport]
      exact hlog.trans (by rw [hreport]; rfl)
    exact ⟨inside, o, o', hpositional, hnamed, hfailed, List.append_cancel_right hinside, hmirrors⟩

end ArgSchema
