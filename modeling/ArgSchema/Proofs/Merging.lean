/-
# Merged entries

Entries are written over others one after another: where the key is there already the value is
replaced, and the entry keeps its key and its place; any other entry goes to the end. So keys stay
distinct (`Entries.Keyed.insertAll`), a key finds what was written under it (`find?_insert`), and a
value that is there at the end was on one of the two sides (`mem_insertAll`).

An entry is normalized by itself, so entries may be merged before or after they are normalized
(`normalizeEntries_insertAll`): the merged normal forms are the normal form of what was merged,
in the same order.

Key definitions: `Entries.insert` and `Entries.insertAll`, of which this is about.
-/
import ArgSchema.Proofs.NormalForm

namespace ArgSchema

open Value

theorem hasKey_iff {v : Value} {k : Key} : v.hasKey k = true ↔ v.key = .ok k := by
  unfold Value.hasKey
  cases v.key with
  | ok k' => simp
  | error e => simp

theorem Entries.Keyed.append {es new : Entries} (h : Entries.Keyed es) (hnew : Entries.Keyed new)
    (hdisjoint : ∀ e ∈ es, ∀ f ∈ new, e.1.key ≠ f.1.key) : Entries.Keyed (es ++ new) := by
  refine ⟨fun x hx => ?_, ?_⟩
  · rw [List.map_append] at hx
    exact (List.mem_append.mp hx).elim (h.hashable x) (hnew.hashable x)
  · rw [List.map_append, List.pairwise_append]
    refine ⟨h.distinct, hnew.distinct, fun x hx y hy => ?_⟩
    obtain ⟨e, he, rfl⟩ := List.mem_map.mp hx
    obtain ⟨f, hf, rfl⟩ := List.mem_map.mp hy
    exact hdisjoint e he f hf

/-- An entry is found by its key. -/
theorem Entries.Keyed.found {es : Entries} (h : Entries.Keyed es) {e : Value × Value} (he : e ∈ es) {k : Key}
    (hk : e.1.key = .ok k) : Entries.find? k es = some e.2 := by
  have hlookup := h.lookup he
  rw [Value.lookup?, hk, ok_bind] at hlookup
  exact Except.ok.inj hlookup

/-! ### One entry -/

section

variable {k : Key} {x v : Value}

/-- Under a key that is there the value is replaced; no key changes. -/
theorem keys_insert_of_mem : ∀ {es : Entries}, (∃ e ∈ es, e.1.key = .ok k) →
    (Entries.insert k x v es).map Prod.fst = es.map Prod.fst
  | (x', v') :: rest, h => by
    unfold Entries.insert
    split
    · rfl
    · rename_i hne
      obtain ⟨e, he, hk⟩ := h
      rcases List.mem_cons.mp he with rfl | he
      · exact absurd (hasKey_iff.mpr hk) hne
      · rw [List.map_cons, List.map_cons, keys_insert_of_mem ⟨e, he, hk⟩]

/-- Under a new key the entry goes to the end. -/
theorem insert_of_not_mem : ∀ {es : Entries}, (∀ e ∈ es, e.1.key ≠ .ok k) →
    Entries.insert k x v es = es ++ [(x, v)]
  | [], _ => rfl
  | (x', v') :: rest, h => by
    have hne : x'.hasKey k ≠ true := mt hasKey_iff.mp (h _ List.mem_cons_self)
    rw [Entries.insert, if_neg hne, insert_of_not_mem fun e he => h e (List.mem_cons_of_mem _ he), List.cons_append]

theorem mem_insert {e : Value × Value} : ∀ {es : Entries}, e ∈ Entries.insert k x v es → e ∈ es ∨ e.2 = v
  | [], h => .inr (by rw [List.mem_singleton.mp h])
  | (x', v') :: rest, h => by
    unfold Entries.insert at h
    split at h
    · rcases List.mem_cons.mp h with rfl | h
      · exact .inr rfl
      · exact .inl (List.mem_cons_of_mem _ h)
    · rcases List.mem_cons.mp h with rfl | h
      · exact .inl List.mem_cons_self
      · exact (mem_insert h).imp_left (List.mem_cons_of_mem _)

/-- A key is found with the value that was written under it, any other key as before. -/
theorem find?_insert (k' : Key) (hx : x.key = .ok k) : ∀ es : Entries,
    Entries.find? k' (Entries.insert k x v es) = if k = k' then some v else Entries.find? k' es
  | [] => by simp [Entries.insert, Entries.find?, hasKey_of_key hx]
  | (y, w) :: rest => by
    have ih := find?_insert k' hx rest
    unfold Entries.insert
    split
    · rename_i hy
      rw [Entries.find?, Entries.find?, hasKey_of_key (hasKey_iff.mp hy)]
      by_cases hk : k = k' <;> simp [hk]
    · rename_i hy
      rw [Entries.find?, Entries.find?, ih]
      by_cases hk : k = k'
      · obtain rfl := hk
        simp [hy]
      · rw [if_neg hk, if_neg hk]

theorem Entries.Keyed.insert {es : Entries} (h : Entries.Keyed es) (hk : x.key = .ok k) (v : Value) :
    Entries.Keyed (Entries.insert k x v es) := by
  by_cases hmem : ∃ e ∈ es, e.1.key = .ok k
  · have hkeys := keys_insert_of_mem (x := x) (v := v) hmem
    exact ⟨by rw [hkeys]; exact h.hashable, by rw [hkeys]; exact h.distinct⟩
  · have hnew : ∀ e ∈ es, e.1.key ≠ .ok k := fun e he he' => hmem ⟨e, he, he'⟩
    have hentry : Entries.Keyed [(x, v)] := ⟨by simp [hk], List.pairwise_singleton _ _⟩
    rw [insert_of_not_mem hnew]
    refine h.append hentry fun e he f hf => ?_
    rw [List.mem_singleton.mp hf, hk]
    exact hnew e he

end

/-! ### Several entries -/

theorem Entries.Keyed.insertAll : ∀ {new es merged : Entries}, Entries.Keyed es → Entries.insertAll es new = .ok merged →
    Entries.Keyed merged
  | [], _, _, h, hm => Except.ok.inj hm ▸ h
  | (x, v) :: rest, es, merged, h, hm => by
    obtain ⟨k, hk, hm⟩ := bind_eq_ok.mp hm
    exact (h.insert hk v).insertAll hm

/-- Entries with new keys go behind the ones that are there. -/
theorem insertAll_of_keyed : ∀ {new es : Entries}, Entries.Keyed (es ++ new) → Entries.insertAll es new = .ok (es ++ new)
  | [], es, _ => by rw [Entries.insertAll, List.append_nil]
  | (x, v) :: rest, es, h => by
    have happend : es ++ (x, v) :: rest = (es ++ [(x, v)]) ++ rest := by simp
    obtain ⟨k, hk⟩ := h.hashable x (by simp)
    have hnew : ∀ e ∈ es, e.1.key ≠ .ok k := by
      have hdistinct := h.distinct
      rw [List.map_append, List.pairwise_append] at hdistinct
      exact fun e he => hk ▸ hdistinct.2.2 e.1 (List.mem_map_of_mem he) x List.mem_cons_self
    rw [Entries.insertAll, hk, ok_bind, insert_of_not_mem hnew, happend]
    exact insertAll_of_keyed (happend ▸ h)

/-- What is there in the end was there before, or has a new value. -/
theorem mem_insertAll {e : Value × Value} : ∀ {new es merged : Entries}, Entries.insertAll es new = .ok merged →
    e ∈ merged → e ∈ es ∨ ∃ f ∈ new, f.2 = e.2
  | [], _, _, hm, he => .inl (Except.ok.inj hm ▸ he)
  | (x, v) :: rest, es, merged, hm, he => by
    obtain ⟨k, hk, hm⟩ := bind_eq_ok.mp hm
    rcases mem_insertAll hm he with he | ⟨f, hf, hv⟩
    · rcases mem_insert he with he | hv
      · exact .inl he
      · exact .inr ⟨(x, v), List.mem_cons_self, hv.symm⟩
    · exact .inr ⟨f, List.mem_cons_of_mem _ hf, hv⟩

theorem insertAll_total : ∀ {new : Entries}, (∀ f ∈ new, ∃ k, f.1.key = .ok k) → ∀ es : Entries,
    ∃ merged, Entries.insertAll es new = .ok merged
  | [], _, es => ⟨es, rfl⟩
  | (x, v) :: rest, h, es => by
    obtain ⟨k, hk⟩ := h (x, v) List.mem_cons_self
    obtain ⟨merged, hm⟩ := insertAll_total (fun f hf => h f (List.mem_cons_of_mem _ hf)) (Entries.insert k x v es)
    exact ⟨merged, by rw [Entries.insertAll, hk, ok_bind, hm]⟩

theorem Entries.Keyed.insertAll_total {new : Entries} (h : Entries.Keyed new) (es : Entries) :
    ∃ merged, Entries.insertAll es new = .ok merged :=
  ArgSchema.insertAll_total (fun f hf => h.hashable f.1 (List.mem_map_of_mem hf)) es

/-! ### Normal forms -/

/-- An entry is normalized where it is written. -/
theorem forall₂_insert {k : Key} {x v spec : Value} (hspec : v.toField = .ok spec) {es fields : Entries}
    (h : List.Forall₂ (fun e f => f.1 = e.1 ∧ e.2.toField = .ok f.2) es fields) :
    List.Forall₂ (fun e f => f.1 = e.1 ∧ e.2.toField = .ok f.2) (Entries.insert k x v es)
      (Entries.insert k x spec fields) := by
  induction h with
  | nil => exact .cons ⟨rfl, hspec⟩ .nil
  | @cons e f es fields hfirst hrest ih =>
    obtain ⟨y, w⟩ := e
    obtain ⟨y', w'⟩ := f
    obtain ⟨rfl, hw⟩ : y' = y ∧ w.toField = .ok w' := hfirst
    unfold Entries.insert
    split
    · exact .cons ⟨rfl, hspec⟩ hrest
    · exact .cons ⟨rfl, hw⟩ ih

/-- **Merging and normalizing commute.** -/
theorem normalizeEntries_insertAll : ∀ {new newFields es fields : Entries}, normalizeEntries es = .ok fields →
    normalizeEntries new = .ok newFields →
    (do normalizeEntries (← Entries.insertAll es new)) = Entries.insertAll fields newFields
  | [], newFields, es, fields, h, hnew => by
    obtain rfl : [] = newFields := Except.ok.inj hnew
    exact h
  | (x, v) :: rest, newFields, es, fields, h, hnew => by
    rw [normalizeEntries] at hnew
    obtain ⟨spec, hspec, hnew⟩ := bind_eq_ok.mp hnew
    obtain ⟨restFields, hrest, hnew⟩ := bind_eq_ok.mp hnew
    obtain rfl : (x, spec) :: restFields = newFields := Except.ok.inj hnew
    rw [Entries.insertAll, Entries.insertAll]
    cases hk : x.key with
    | error fault => rfl
    | ok k =>
      have hinsert := forall₂_insert (k := k) (x := x) hspec (normalizeEntries_eq_ok.mp h)
      exact normalizeEntries_insertAll (normalizeEntries_eq_ok.mpr hinsert) hrest

end ArgSchema
