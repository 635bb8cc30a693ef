/-
# What a session keeps

In a session whose values are well-kinded every step leaves well-kinded values
(`Session.step_wellKinded`, for a run `Session.run_wellKinded`), since an edit gives back the
object that it found with its kind (`Edit.applyAt_replaces`), and everything else is made of values
that were there. So what a name stands for, unless the name is given anew, changes by replacing
objects only (`Session.step_find`), and what each replacement keeps is kept by every run of steps
(`Session.run_keeps`).

Key definitions: `Step.name?`, `Step.WellKinded`, `Session.WellKinded`.
-/
import ArgSchema.Proofs.Objects
import ArgSchema.Session

namespace ArgSchema

open Value

variable {kinds : Nat → Option ObjectKind} {room : Nat}

/-! ### Entries and items -/

theorem Entries.WellKinded.find {es : Entries} {k : Key} {v : Value} (h : Entries.WellKinded kinds es)
    (hfind : Entries.find? k es = some v) : ArgSchema.WellKinded kinds v := by
  obtain ⟨e, he, -, rfl⟩ := find?_mem hfind
  exact (h e he).2

theorem Entries.WellKinded.insert {k : Key} {x v : Value} (hx : ArgSchema.WellKinded kinds x)
    (hv : ArgSchema.WellKinded kinds v) : ∀ {es : Entries}, Entries.WellKinded kinds es →
    Entries.WellKinded kinds (Entries.insert k x v es)
  | [], _ => List.forall_mem_singleton.mpr ⟨hx, hv⟩
  | (x', v') :: rest, h => by
    obtain ⟨hfirst, hrest⟩ := List.forall_mem_cons.mp h
    rw [Entries.insert]
    split
    · exact List.forall_mem_cons.mpr ⟨⟨hfirst.1, hv⟩, hrest⟩
    · exact List.forall_mem_cons.mpr ⟨hfirst, insert hx hv hrest⟩

theorem Entries.erase_subset {k : Key} : ∀ es : Entries, Entries.erase k es ⊆ es
  | [] => List.Subset.refl _
  | (x, v) :: rest => by
    rw [Entries.erase]
    split
    · exact List.subset_cons_self _ _
    · exact List.cons_subset_cons _ (erase_subset rest)

theorem wellKinded_characters (kind : TextKind) (s : String) : ∀ x ∈ characters kind s, WellKinded kinds x := by
  intro x hx
  obtain ⟨c, -, rfl⟩ := List.mem_map.mp hx
  exact wellKinded_atom rfl

theorem wellKinded_byteNumbers (data : List Nat) : ∀ x ∈ byteNumbers data, WellKinded kinds x := by
  intro x hx
  obtain ⟨b, -, rfl⟩ := List.mem_map.mp hx
  exact wellKinded_ofInt b

theorem wellKinded_enumEntries (c : Class) : Entries.WellKinded kinds (enumEntries c) := by
  intro e he
  unfold enumEntries at he
  split at he
  · obtain ⟨c, -, rfl⟩ := List.mem_map.mp he
    exact ⟨wellKinded_ofText _, wellKinded_atom rfl⟩
  · obtain ⟨n, -, rfl⟩ := List.mem_map.mp he
    exact ⟨wellKinded_ofText _, wellKinded_atom rfl⟩
  · cases he

theorem wellKinded_rangeItems {start stop step : Int} {xs : List Value}
    (h : (Sequence.range start stop step).toList room = .ok xs) : ∀ x ∈ xs, WellKinded kinds x := by
  rw [Sequence.toList, bind_eq_ok] at h
  obtain ⟨n, -, h⟩ := h
  split at h
  · rw [← Except.ok.inj h]
    intro x hx
    obtain ⟨i, -, rfl⟩ := List.mem_map.mp hx
    exact wellKinded_ofInt _
  · cases h

/-- The items that a value is gone through by. -/
theorem WellKinded.items {v : Value} {xs : List Value} (h : WellKinded kinds v) (hxs : v.items room = .ok xs) :
    ∀ x ∈ xs, WellKinded kinds x := by
  unfold Value.items at hxs
  split at hxs
  · exact Except.ok.inj hxs ▸ fun x hx => h.content hx
  · rw [← Except.ok.inj hxs]
    intro x hx
    obtain ⟨e, he, rfl⟩ := List.mem_map.mp hx
    exact (h.entries e he).1
  · exact wellKinded_rangeItems hxs
  · exact Except.ok.inj hxs ▸ wellKinded_characters _ _
  · exact Except.ok.inj hxs ▸ wellKinded_byteNumbers _
  · split at hxs
    · rw [← Except.ok.inj hxs]
      intro x hx
      obtain ⟨e, he, rfl⟩ := List.mem_map.mp hx
      exact (wellKinded_enumEntries _ e he).2
    · cases hxs
  · cases hxs
  · exact Except.ok.inj hxs ▸ List.forall_mem_singleton.mpr h
  · cases hxs

theorem WellKinded.toPair {v : Value} {position : Nat} {e : Value × Value} (h : WellKinded kinds v)
    (he : v.toPair room position = .ok e) : WellKinded kinds e.1 ∧ WellKinded kinds e.2 := by
  unfold Value.toPair at he
  split at he
  · cases he
  · cases he
  · rename_i a b hitems
    have hpair := h.items hitems
    rw [← Except.ok.inj he]
    exact ⟨hpair a List.mem_cons_self, hpair b (List.mem_cons_of_mem _ List.mem_cons_self)⟩
  · cases he

theorem wellKinded_insertPairs : ∀ {xs : List Value} {position : Nat} {es fields : Entries},
    Entries.WellKinded kinds es → (∀ x ∈ xs, WellKinded kinds x) →
    insertPairs room es position xs = .ok fields → Entries.WellKinded kinds fields
  | [], _, es, fields, hes, _, h => Except.ok.inj h ▸ hes
  | x :: rest, position, es, fields, hes, hxs, h => by
    obtain ⟨hx, hrest⟩ := List.forall_mem_cons.mp hxs
    rw [insertPairs] at h
    obtain ⟨e, he, h⟩ := bind_eq_ok.mp h
    obtain ⟨k, -, h⟩ := bind_eq_ok.mp h
    obtain ⟨hkey, hvalue⟩ := hx.toPair he
    exact wellKinded_insertPairs (hes.insert hkey hvalue) hrest h

/-- The mapping that a value gives. -/
theorem WellKinded.toEntries {v : Value} {es : Entries} (h : WellKinded kinds v) (hes : v.toEntries room = .ok es) :
    Entries.WellKinded kinds es := by
  have hnone : Entries.WellKinded kinds [] := fun e he => by cases he
  unfold Value.toEntries at hes
  split at hes
  · exact Except.ok.inj hes ▸ h.entries
  · exact Except.ok.inj hes ▸ hnone
  · split at hes
    · exact Except.ok.inj hes ▸ hnone
    · cases hes
  · split at hes
    · cases hes
    · obtain ⟨xs, hxs, hes⟩ := bind_eq_ok.mp hes
      exact wellKinded_insertPairs hnone (h.items hxs) hes

theorem wellKinded_itemAt {c : Class} {items : List Value} {key w : Value} (h : ∀ x ∈ items, WellKinded kinds x)
    (hw : itemAt c items key = .ok w) : WellKinded kinds w := by
  obtain ⟨place, -, hw⟩ := bind_eq_ok.mp hw
  obtain rfl := Except.ok.inj hw
  cases hx : items[place]? with
  | none => exact wellKinded_atom rfl
  | some x => exact h x (List.mem_of_getElem? hx)

theorem wellKinded_lookup {es : Entries} {key w : Value} {o : Option Value} (h : Entries.WellKinded kinds es)
    (ho : lookup? es key = .ok o) (hw : o = some w) : WellKinded kinds w := by
  obtain ⟨k, -, ho⟩ := bind_eq_ok.mp ho
  exact h.find ((Except.ok.inj ho).trans hw)

/-- The item under a key. -/
theorem WellKinded.item {v key w : Value} (h : WellKinded kinds v) (hw : v.item key = .ok w) : WellKinded kinds w := by
  unfold Value.item at hw
  split at hw
  · obtain ⟨o, ho, hw⟩ := bind_eq_ok.mp hw
    split at hw
    · exact wellKinded_lookup h.entries ho (by rw [← Except.ok.inj hw])
    · cases hw
  · split at hw
    · exact wellKinded_itemAt (fun x hx => h.content hx) hw
    · cases hw
  · exact wellKinded_itemAt (wellKinded_characters _ _) hw
  · exact wellKinded_itemAt (wellKinded_byteNumbers _) hw
  · obtain ⟨place, -, hw⟩ := bind_eq_ok.mp hw
    exact Except.ok.inj hw ▸ wellKinded_ofInt _
  · unfold classItem at hw
    split at hw
    · obtain ⟨o, ho, hw⟩ := bind_eq_ok.mp hw
      split at hw
      · exact wellKinded_lookup (wellKinded_enumEntries _) ho (by rw [← Except.ok.inj hw])
      · cases hw
    · cases hw
  · cases hw
  · cases hw

/-! ### Edits -/

/-- The values that a change names. -/
def Edit.contents : Edit → List Value
  | .put key x => [key, x]
  | .remove key => [key]
  | .append x => [x]

theorem wellKinded_applyEntries {edit : Edit} {v : Value} {kind : MappingKind} {es es' : Entries}
    (hedit : ∀ w ∈ edit.contents, WellKinded kinds w) (hes : Entries.WellKinded kinds es)
    (h : edit.applyEntries v kind es = .ok es') : Entries.WellKinded kinds es' := by
  cases edit with
  | put key x =>
    obtain ⟨k, -, h⟩ := bind_eq_ok.mp h
    rw [← Except.ok.inj h]
    exact hes.insert (hedit key List.mem_cons_self) (hedit x (List.mem_cons_of_mem _ List.mem_cons_self))
  | remove key =>
    obtain ⟨k, -, h⟩ := bind_eq_ok.mp h
    split at h
    · rw [← Except.ok.inj h]
      exact fun e he => hes e (Entries.erase_subset es he)
    · cases h
  | append x => cases h

theorem wellKinded_applyItems {edit : Edit} {kind : CollectionKind} {c : Class} {items items' : List Value}
    (hedit : ∀ w ∈ edit.contents, WellKinded kinds w) (hitems : ∀ x ∈ items, WellKinded kinds x)
    (h : edit.applyItems kind c items = .ok items') : ∀ x ∈ items', WellKinded kinds x := by
  cases edit with
  | put key x =>
    obtain ⟨place, -, h⟩ := bind_eq_ok.mp h
    split at h
    · rw [← Except.ok.inj h]
      intro y hy
      rcases List.mem_or_eq_of_mem_set hy with hy | rfl
      · exact hitems y hy
      · exact hedit y (List.mem_cons_of_mem _ List.mem_cons_self)
    · cases h
  | remove key =>
    obtain ⟨place, -, h⟩ := bind_eq_ok.mp h
    rw [← Except.ok.inj h]
    exact fun y hy => hitems y (List.mem_of_mem_eraseIdx hy)
  | append x =>
    rw [Edit.applyItems] at h
    split at h
    · rw [← Except.ok.inj h]
      exact List.forall_mem_append.mpr ⟨hitems, List.forall_mem_singleton.mpr (hedit x List.mem_cons_self)⟩
    · cases h

/-- **A changed object keeps its kind.** -/
theorem Edit.apply_replaces {edit : Edit} {v new : Value} {id : Nat}
    (hedit : ∀ w ∈ edit.contents, WellKinded kinds w) (hv : WellKinded kinds v)
    (h : edit.apply v = .ok (id, new)) : Replaces kinds id new := by
  cases v with
  | mapping kind i es =>
    by_cases hproxy : kind = .proxy
    · subst hproxy
      cases h
    · have happly : edit.apply (.mapping kind i es) = (do
          .ok (i, .mapping kind i (← edit.applyEntries (.mapping kind i es) kind es))) := by
        cases kind <;> first | rfl | exact absurd rfl hproxy
      rw [happly] at h
      obtain ⟨es', hes', h⟩ := bind_eq_ok.mp h
      obtain ⟨rfl, rfl⟩ := Prod.mk.inj (Except.ok.inj h)
      refine ⟨wellKinded_mapping (hv.self rfl) (wellKinded_applyEntries hedit hv.entries hes'), rfl, ?_⟩
      rw [kind?, if_neg hproxy]
      exact Option.some_ne_none _
  | collection kind i items =>
    rw [Edit.apply] at h
    split at h
    · rename_i c hchange _
      obtain ⟨items', hitems', h⟩ := bind_eq_ok.mp h
      obtain ⟨rfl, rfl⟩ := Prod.mk.inj (Except.ok.inj h)
      have hwell := wellKinded_applyItems hedit (fun x hx => hv.content hx) hitems'
      refine ⟨wellKinded_collection (hv.self rfl) hwell, rfl, ?_⟩
      rw [kind?, if_pos hchange]
      exact Option.some_ne_none _
    · cases h
  | atom a =>
    cases a with
    | bytes kind data =>
      cases kind with
      | mutable i =>
        obtain ⟨data', -, h⟩ := bind_eq_ok.mp h
        obtain ⟨rfl, rfl⟩ := Prod.mk.inj (Except.ok.inj h)
        refine ⟨.intro (fun j hj => ?_) (by simp [Value.contents, parts]), rfl, Option.some_ne_none _⟩
        obtain rfl := Option.some.inj hj
        exact hv.self rfl
      | _ => cases h
    | _ => cases h
  | _ => cases h

/-- Only a mapping with a default starts a list. -/
theorem startsList_eq_true {kind : MappingKind} {id : Nat} {es : Entries} {key : Value}
    (h : (Value.mapping kind id es).startsList key = .ok true) : kind = .default := by
  cases kind <;> first | rfl | cases h

/-- A change along a path, which may start a list under a key that is not there. -/
theorem Edit.applyAt_replaces {edit : Edit} {fresh : Nat} (hfresh : kinds fresh = some (.collection .list))
    (hedit : ∀ w ∈ edit.contents, WellKinded kinds w) : ∀ {path : List Value} {v new : Value} {id : Nat},
    (∀ k ∈ path, WellKinded kinds k) → WellKinded kinds v → edit.applyAt fresh path v = .ok (id, new) →
    Replaces kinds id new
  | [], v, new, id, _, hv, h => apply_replaces hedit hv h
  | key :: rest, v, new, id, hpath, hv, h => by
    obtain ⟨hkey, hrest⟩ := List.forall_mem_cons.mp hpath
    rw [applyAt] at h
    obtain ⟨starts, hstarts, h⟩ := bind_eq_ok.mp h
    split at h
    · obtain rfl := startsList_eq_true hstarts
      obtain ⟨⟨j, list⟩, hlist, h⟩ := bind_eq_ok.mp h
      obtain ⟨rfl, rfl⟩ := Prod.mk.inj (Except.ok.inj h)
      have hnew : Replaces kinds j list :=
        applyAt_replaces hfresh hedit hrest (wellKinded_collection hfresh (by simp)) hlist
      refine ⟨wellKinded_mapping (hv.self rfl) ?_, rfl, Option.some_ne_none _⟩
      exact List.forall_mem_append.mpr ⟨hv.entries, List.forall_mem_singleton.mpr ⟨hkey, hnew.wellKinded⟩⟩
    · obtain ⟨w, hw, h⟩ := bind_eq_ok.mp h
      exact applyAt_replaces hfresh hedit hrest (hv.item hw) h

/-! ### Outcomes and bindings -/

/-- What an outcome holds. -/
def Outcome.contents (o : Outcome) : List Value :=
  o.failedKeys ++ o.values :: (o.fields.map Prod.fst ++ o.fields.map Prod.snd)

/-- What a name stands for holds. -/
def Binding.contents : Binding → List Value
  | .value v => [v]
  | .outcome o => o.contents

/-- A name stands for well-kinded values. -/
def Binding.WellKinded (kinds : Nat → Option ObjectKind) (b : Binding) : Prop :=
  ∀ v ∈ b.contents, ArgSchema.WellKinded kinds v

theorem Binding.wellKinded_value {v : Value} (h : ArgSchema.WellKinded kinds v) :
    (Binding.value v).WellKinded kinds :=
  List.forall_mem_singleton.mpr h

theorem Outcome.contents_write (id : Nat) (new : Value) (o : Outcome) :
    (o.write id new).contents = o.contents.map (Value.write id new) := by
  simp only [contents, write, writeItems_eq, writeEntries_eq, map_entries, List.map_append, List.map_cons]

theorem Binding.contents_write (id : Nat) (new : Value) (b : Binding) :
    (b.write id new).contents = b.contents.map (Value.write id new) := by
  cases b with
  | value v => rfl
  | outcome o => exact o.contents_write id new

theorem Binding.WellKinded.write {b : Binding} {id : Nat} {new : Value} (h : b.WellKinded kinds)
    (hnew : Replaces kinds id new) : (b.write id new).WellKinded kinds := by
  intro v hv
  rw [contents_write] at hv
  obtain ⟨w, hw, rfl⟩ := List.mem_map.mp hv
  exact (h w hw).write hnew

/-- The fields that a request checks are made of its schema, or of the arguments that spell it. -/
theorem Request.wellKinded_fields {r : Request} {fields : Entries} (h : ∀ s ∈ r.schemas, WellKinded kinds s)
    (hn : r.fields = .ok fields) : Entries.WellKinded kinds fields := by
  have hcontents : ∀ w ∈ r.schema.contents, WellKinded kinds w := by
    cases r with
    | freely v s =>
      have hs := h s List.mem_cons_self
      rw [Request.schema]
      split
      · exact List.forall_mem_singleton.mpr hs
      · exact fun w hw => hs.content hw
    | positional v args =>
      rw [Request.schema]
      unfold spreadSchema
      split
      · exact fun w hw => (h _ List.mem_cons_self).content hw
      · split
        · exact fun w hw => (h _ List.mem_cons_self).content hw
        · exact h
      · exact h
    | _ => exact fun w hw => (h _ List.mem_cons_self).content hw
  rcases r.fields_cases with he | he
  · exact wellKinded_toFields hcontents (he ▸ hn)
  · rw [he] at hn
    obtain ⟨fields', hfields', hn⟩ := bind_eq_ok.mp hn
    exact (wellKinded_toFields hcontents hfields').normalize hn

/-- The outcome of a request is made of its values and its fields. -/
theorem Request.wellKinded_outcome {r : Request} {o : Outcome} (hv : WellKinded kinds r.values)
    (hs : ∀ s ∈ r.schemas, WellKinded kinds s) (ho : r.run.result = .ok o) :
    (Binding.outcome o).WellKinded kinds := by
  rcases Request.run_cases ho with ⟨message, rfl⟩ | hc
  · intro v hv
    rcases List.mem_cons.mp hv with rfl | hv
    · exact wellKinded_ofText message
    · rw [List.mem_singleton.mp hv]
      exact wellKinded_atom rfl
  · have hfields := forall_entries.mpr (Request.wellKinded_fields hs hc.fields)
    refine List.forall_mem_append.mpr ⟨fun k hk => ?_, List.forall_mem_cons.mpr ⟨hc.values ▸ hv, hfields⟩⟩
    exact hfields k (List.mem_append_left _ (failingKeys_mem hc.failing k hk))

/-! ### Steps -/

/-- The name that a step gives anew. -/
def Step.name? : Step → Option String
  | .assign name _ | .build name _ _ _ | .normalize name _ _ => some name
  | .validate name _ => name
  | .edit .. => none

/-- A step names well-kinded values only, and new objects get identities of their kind. -/
def Step.WellKinded (kinds : Nat → Option ObjectKind) : Step → Prop
  | .assign _ v => ArgSchema.WellKinded kinds v
  | .build _ _ raw copy => ArgSchema.WellKinded kinds raw ∧ ∀ id, copy = some id → kinds id = some (.mapping .dict)
  | .normalize _ id t => ArgSchema.WellKinded kinds t ∧ kinds id = some (.mapping .dict)
  | .validate _ r => ArgSchema.WellKinded kinds r.values ∧ ∀ s ∈ r.schemas, ArgSchema.WellKinded kinds s
  | .edit _ id path e => kinds id = some (.collection .list) ∧ (∀ k ∈ path, ArgSchema.WellKinded kinds k) ∧
      ∀ v ∈ e.contents, ArgSchema.WellKinded kinds v

/-- Every name of a session stands for well-kinded values. -/
def Session.WellKinded (kinds : Nat → Option ObjectKind) (s : Session) : Prop :=
  ∀ b ∈ s.bindings, b.2.WellKinded kinds

namespace Session

theorem WellKinded.assign {s : Session} {b : Binding} (hs : s.WellKinded kinds) (hb : b.WellKinded kinds)
    (name : String) : (s.assign name b).WellKinded kinds :=
  List.forall_mem_cons.mpr ⟨hb, hs⟩

theorem WellKinded.write {s : Session} {id : Nat} {new : Value} (hs : s.WellKinded kinds)
    (hnew : Replaces kinds id new) : (s.write id new).WellKinded kinds := by
  intro b' hb'
  obtain ⟨b, hb, rfl⟩ := List.mem_map.mp hb'
  exact (hs b hb).write hnew

theorem WellKinded.find {s : Session} {name : String} {b : Binding} (hs : s.WellKinded kinds)
    (h : s.find? name = some b) : b.WellKinded kinds := by
  obtain ⟨before, after, hmem, -⟩ := List.lookup_eq_some_iff.mp h
  exact hs (name, b) (hmem ▸ List.mem_append_right _ List.mem_cons_self)

theorem find?_write (s : Session) (id : Nat) (new : Value) (name : String) :
    (s.write id new).find? name = (s.find? name).map (Binding.write id new) := by
  obtain ⟨bindings⟩ := s
  show (bindings.map fun b => (b.1, b.2.write id new)).lookup name = (bindings.lookup name).map (Binding.write id new)
  induction bindings with
  | nil => rfl
  | cons b rest ih =>
    rw [List.map_cons, List.lookup_cons, List.lookup_cons, ih]
    split <;> rfl

theorem find?_assign_of_ne (s : Session) {name other : String} (h : name ≠ other) (b : Binding) :
    (s.assign other b).find? name = s.find? name := by
  show List.lookup name ((other, b) :: s.bindings) = s.bindings.lookup name
  rw [List.lookup_cons, beq_eq_false_iff_ne.mpr h]

theorem builtSchema_eq_ok {id : Nat} {raw v : Value} {copy : Option Nat} : builtSchema room id raw copy = .ok v ↔
    ∃ S : Schema, (match copy with
      | some i => Schema.ofMapping room i raw
      | none => Schema.build raw none) = .ok S ∧ v = S.toValue id := by
  have hbind : ∀ {r : Except Fault Schema}, (do .ok ((← r).toValue id)) = Except.ok v ↔
      ∃ S, r = .ok S ∧ v = S.toValue id := by
    intro r
    rw [bind_eq_ok]
    exact exists_congr fun S => and_congr_right fun _ => by rw [Except.ok.injEq, eq_comm]
  cases copy with
  | none => exact hbind
  | some i => exact hbind

/-- A schema is built of the value that it is built from. -/
theorem wellKinded_builtSchema {id : Nat} {raw v : Value} {copy : Option Nat} (hraw : ArgSchema.WellKinded kinds raw)
    (hcopy : ∀ i, copy = some i → kinds i = some (.mapping .dict)) (h : builtSchema room id raw copy = .ok v) :
    ArgSchema.WellKinded kinds v := by
  have hbuild : ∀ {raw : Value} {S : Schema}, ArgSchema.WellKinded kinds raw → Schema.build raw none = .ok S →
      ArgSchema.WellKinded kinds (S.toValue id) := by
    intro raw S hraw hS
    obtain ⟨fields, hfields, hS⟩ := bind_eq_ok.mp hS
    obtain rfl := Except.ok.inj hS
    refine wellKinded_of_contents rfl (List.forall_mem_cons.mpr ⟨hraw, forall_entries.mpr ?_⟩)
    refine wellKinded_toFields (fun w hw => ?_) hfields
    split at hw
    · rw [List.mem_singleton.mp hw]
      exact hraw
    · exact hraw.content hw
  obtain ⟨S, hS, rfl⟩ := builtSchema_eq_ok.mp h
  cases copy with
  | none => exact hbuild hraw hS
  | some i =>
    obtain ⟨es, hes, hS⟩ := bind_eq_ok.mp hS
    exact hbuild (wellKinded_mapping (hcopy i rfl) (hraw.toEntries hes)) hS

/-- An edit that is carried out replaces one object by one of its kind. -/
theorem edit_replaces {s s' : Session} {name : String} {id : Nat} {path : List Value} {e : Edit}
    (hs : s.WellKinded kinds) (hst : (Step.edit name id path e).WellKinded kinds) (h : s.edit name id path e = .ok s') :
    ∃ object new, Replaces kinds object new ∧ s' = s.write object new := by
  obtain ⟨hfresh, hpath, hedit⟩ := hst
  obtain ⟨b, hb, h⟩ := bind_eq_ok.mp h
  obtain ⟨⟨object, new⟩, hedited, h⟩ := bind_eq_ok.mp h
  refine ⟨object, new, ?_, (Except.ok.inj h).symm⟩
  have hfind : s.find? name = some b := by
    unfold binding at hb
    split at hb
    · rename_i b' hb'
      rw [hb', Except.ok.inj hb]
    · cases hb
  have hwell := hs.find hfind
  cases b with
  | value v => exact Edit.applyAt_replaces hfresh hedit hpath (hwell v (List.mem_singleton_self v)) hedited
  | outcome o =>
    cases path with
    | nil => cases hedited
    | cons k rest => cases hedited

/-- **Every step leaves well-kinded values.** -/
theorem step_wellKinded {s : Session} {st : Step} (hs : s.WellKinded kinds) (hst : st.WellKinded kinds) :
    (s.step room st).1.WellKinded kinds := by
  have hresult : ∀ {name : String} {r : Except Fault Value}, (∀ v, r = .ok v → ArgSchema.WellKinded kinds v) →
      (s.assignResult name r).1.WellKinded kinds := by
    intro name r hr
    unfold assignResult
    split
    · exact hs.assign (Binding.wellKinded_value (hr _ rfl)) name
    · exact hs
  cases st with
  | assign name v => exact hs.assign (Binding.wellKinded_value hst) name
  | build name id raw copy => exact hresult fun v hv => wellKinded_builtSchema hst.1 hst.2 hv
  | normalize name id t =>
    refine hresult fun v hv => ?_
    obtain ⟨fields, hfields, hv⟩ := bind_eq_ok.mp hv
    obtain rfl := Except.ok.inj hv
    exact wellKinded_mapping hst.2 (wellKinded_toFields (fun w hw => hst.1.content hw) hfields)
  | validate name r =>
    rw [step]
    split
    · rename_i o ho
      have houtcome := Request.wellKinded_outcome hst.1 hst.2 ho
      cases name with
      | some name => exact hs.assign houtcome name
      | none => exact hs
    · exact hs
  | edit name id path e =>
    rw [step]
    split
    · rename_i s' hs'
      obtain ⟨object, new, hnew, rfl⟩ := edit_replaces hs hst hs'
      exact hs.write hnew
    · exact hs

/-- Every run of steps leaves well-kinded values; a session starts with none. -/
theorem run_wellKinded : ∀ {steps : List Step} {s : Session}, s.WellKinded kinds → (∀ st ∈ steps, st.WellKinded kinds) →
    (s.run room steps).WellKinded kinds
  | [], _, hs, _ => hs
  | st :: rest, s, hs, hsteps => by
    obtain ⟨hst, hrest⟩ := List.forall_mem_cons.mp hsteps
    exact run_wellKinded (s := (s.step room st).1) (step_wellKinded hs hst) hrest

theorem wellKinded_empty : empty.WellKinded kinds := fun b hb => by cases hb

/-- A name that a step does not give anew stands for what it did, after a replacement at most. -/
theorem step_find {s : Session} {st : Step} {name : String} {b : Binding} (hs : s.WellKinded kinds)
    (hst : st.WellKinded kinds) (hname : st.name? ≠ some name) (hb : s.find? name = some b) :
    (s.step room st).1.find? name = some b ∨
      ∃ id new, Replaces kinds id new ∧ (s.step room st).1.find? name = some (b.write id new) := by
  have hassign : ∀ {other : String} {b' : Binding}, some other ≠ some name →
      (s.assign other b').find? name = some b := fun hne =>
    (find?_assign_of_ne s (fun he => hne (congrArg some he.symm)) _).trans hb
  have hresult : ∀ {other : String} {r : Except Fault Value}, some other ≠ some name →
      (s.assignResult other r).1.find? name = some b := by
    intro other r hne
    unfold assignResult
    split
    · exact hassign hne
    · exact hb
  cases st with
  | assign other v => exact .inl (hassign hname)
  | build other id raw copy => exact .inl (hresult hname)
  | normalize other id t => exact .inl (hresult hname)
  | validate other r =>
    left
    rw [step]
    split
    · cases other with
      | some other => exact hassign hname
      | none => exact hb
    · exact hb
  | edit other id path e =>
    rw [step]
    split
    · rename_i s' hs'
      obtain ⟨object, new, hnew, rfl⟩ := edit_replaces hs hst hs'
      exact .inr ⟨object, new, hnew, by rw [find?_write, hb]; rfl⟩
    · exact .inl hb

/-- **What every replacement keeps is kept by every run**: a property of what a name stands for,
as long as the name is not given anew. -/
theorem run_keeps {P : Binding → Prop} {name : String}
    (hwrite : ∀ b id new, b.WellKinded kinds → P b → Replaces kinds id new → P (b.write id new)) :
    ∀ {steps : List Step} {s : Session} {b : Binding}, s.WellKinded kinds →
      (∀ st ∈ steps, st.WellKinded kinds ∧ st.name? ≠ some name) → s.find? name = some b → P b →
      ∃ b', (s.run room steps).find? name = some b' ∧ P b'
  | [], s, b, _, _, hb, hP => ⟨b, hb, hP⟩
  | st :: rest, s, b, hs, hsteps, hb, hP => by
    obtain ⟨⟨hst, hname⟩, hrest⟩ := List.forall_mem_cons.mp hsteps
    have hs' : (s.step room st).1.WellKinded kinds := step_wellKinded hs hst
    show ∃ b', ((s.step room st).1.run room rest).find? name = some b' ∧ P b'
    rcases step_find hs hst hname hb with hb' | ⟨id, new, hnew, hb'⟩
    · exact run_keeps hwrite hs' hrest hb' hP
    · exact run_keeps hwrite hs' hrest hb' (hwrite b id new (hs.find hb) hP hnew)

end Session

end ArgSchema
