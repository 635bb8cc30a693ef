/-
# Keys are read back in one way

Each step of a key says how many keys follow it, so a list of steps holds a known number
of keys or is no list of keys at all (`Complete`). The key of a value is one key
(`key_complete`), and keys written one after another, with anything behind them, part in
one place only (`Complete.unique`). What a step becomes in a hash code has as many keys
behind it, so hash codes are read back in the same way.

Key definitions: `KeyToken.arity`, `Complete`.
-/
import ArgSchema.Proofs.PlainData
import ArgSchema.Value.Equality

namespace ArgSchema

open Value

namespace KeyToken

/-- How many keys follow a step. -/
def arity : KeyToken → Nat
  | .tuple n | .set n | .nested n => n
  | .complex | .fieldSpec => 2
  | .typeName | .instanceOf => 1
  | _ => 0

theorem arity_bytesCode (data : List Nat) : (bytesCode data).arity = 0 := by
  unfold bytesCode
  split <;> rfl

theorem arity_code (t : KeyToken) : t.code.arity = t.arity := by
  cases t with
  | text s => exact arity_bytesCode _
  | unsatisfiable s => exact arity_bytesCode _
  | bytes data => exact arity_bytesCode _
  | color c => exact arity_bytesCode _
  | _ => rfl

end KeyToken

/-! ### Complete lists of steps -/

/-- `n` keys, one after another and nothing else. -/
def Complete : Key → Nat → Prop
  | [], n => n = 0
  | _ :: _, 0 => False
  | t :: ks, n + 1 => Complete ks (n + t.arity)

theorem Complete.append : ∀ {ks ks' : Key} {n m : Nat}, Complete ks n → Complete ks' m → Complete (ks ++ ks') (n + m)
  | [], ks', n, m, h, h' => by
    obtain rfl : n = 0 := h
    rwa [List.nil_append, Nat.zero_add]
  | t :: ks, ks', n + 1, m, h, h' => by
    have htail : Complete ks (n + t.arity) := h
    have ih := htail.append h'
    rw [List.cons_append, Nat.add_right_comm n 1 m]
    show Complete (ks ++ ks') (n + m + t.arity)
    rwa [Nat.add_right_comm n m t.arity]

/-- Keys written one after another are read back in one way. -/
theorem Complete.unique : ∀ {ks ks' r r' : Key} {n : Nat}, Complete ks n → Complete ks' n → ks ++ r = ks' ++ r' →
    ks = ks' ∧ r = r'
  | [], [], r, r', n, h, h', he => ⟨rfl, he⟩
  | [], t :: ks', r, r', n, h, h', he => by
    obtain rfl : n = 0 := h
    exact h'.elim
  | t :: ks, [], r, r', n, h, h', he => by
    obtain rfl : n = 0 := h'
    exact h.elim
  | t :: ks, t' :: ks', r, r', n + 1, h, h', he => by
    obtain ⟨rfl, htail⟩ := List.cons.inj he
    obtain ⟨rfl, rfl⟩ := Complete.unique (n := n + t.arity) h h' htail
    exact ⟨rfl, rfl⟩

/-- What becomes of the steps does not matter as long as their arities stay. -/
theorem Complete.map {f : KeyToken → KeyToken} (hf : ∀ t, (f t).arity = t.arity) : ∀ {ks : Key} {n : Nat},
    Complete ks n → Complete (ks.map f) n
  | [], _, h => h
  | t :: ks, n + 1, h => by
    show Complete (ks.map f) (n + (f t).arity)
    rw [hf]
    exact Complete.map hf h

theorem Complete.flatten : ∀ {keys : List Key}, (∀ k ∈ keys, Complete k 1) → Complete keys.flatten keys.length
  | [], _ => rfl
  | k :: keys, h => by
    rw [List.flatten_cons, List.length_cons, Nat.add_comm]
    exact (h k List.mem_cons_self).append (Complete.flatten fun k hk => h k (List.mem_cons_of_mem _ hk))

/-! ### Keys of values -/

theorem mem_insertKey {k k' : Key} : ∀ {keys : List Key}, k' ∈ insertKey k keys → k' = k ∨ k' ∈ keys
  | [], h => by simpa [insertKey] using h
  | other :: rest, h => by
    unfold insertKey at h
    split at h
    · exact .inr h
    · split at h
      · exact List.mem_cons.mp h
      · rcases List.mem_cons.mp h with rfl | h
        · exact .inr List.mem_cons_self
        · exact (mem_insertKey h).imp_right (List.mem_cons_of_mem _)

theorem mem_members {k : Key} : ∀ {keys : List Key}, k ∈ keys.foldr insertKey [] → k ∈ keys
  | [], h => h
  | _ :: _, h => by
    rcases mem_insertKey h with rfl | h
    · exact List.mem_cons_self
    · exact List.mem_cons_of_mem _ (mem_members h)

theorem Double.key_complete (x : Double) : Complete x.key 1 := by
  cases x <;> rfl

theorem Decimal.key_complete (d : Decimal) : Complete d.key 1 := by
  cases d <;> rfl

theorem Atom.key_complete (a : Atom) : Complete a.key 1 := by
  cases a with
  | float subclass x => exact x.key_complete
  | decimal d => exact d.key_complete
  | complex re im =>
    show Complete (if im.isZero then re.key else .complex :: (re.key ++ im.key)) 1
    split
    · exact re.key_complete
    · exact re.key_complete.append im.key_complete
  | moment m =>
    rw [Atom.key]
    split <;> rfl
  | time t =>
    rw [Atom.key]
    split <;> rfl
  | _ => rfl

mutual
/-- The key of a value is one key. -/
theorem key_complete : ∀ (v : Value) {k : Key}, v.key = .ok k → Complete k 1
  | .atom a, k, h => by
    have hk : a.key = k := by
      cases a with
      | bytes kind data =>
        cases kind with
        | mutable id => simp [Value.key] at h
        | _ => exact Except.ok.inj h
      | _ => exact Except.ok.inj h
    exact hk ▸ a.key_complete
  | .collection kind id items, k, h => by
    have htuple : (do let ks ← keys items; Except.ok (KeyToken.tuple items.length :: ks.flatten)) = .ok k →
        Complete k 1 := by
      intro h
      obtain ⟨ks, hks, h⟩ := bind_eq_ok.mp h
      obtain rfl := Except.ok.inj h
      obtain ⟨hlen, hall⟩ := keys_complete items hks
      show Complete ks.flatten (0 + items.length)
      rw [Nat.zero_add, ← hlen]
      exact Complete.flatten hall
    cases kind with
    | tuple | tupleSub | point => exact htuple h
    | frozenset =>
      obtain ⟨ks, hks, h⟩ := bind_eq_ok.mp h
      obtain rfl := Except.ok.inj h
      obtain ⟨-, hall⟩ := keys_complete items hks
      show Complete (ks.foldr insertKey []).flatten (0 + (ks.foldr insertKey []).length)
      rw [Nat.zero_add]
      exact Complete.flatten fun k hk => hall k (mem_members hk)
    | pair | generator | element =>
      obtain rfl := Except.ok.inj h
      rfl
    | _ => simp [Value.key] at h
  | .mapping kind id entries, k, h => by simp [Value.key] at h
  | .exception _ _ _ _, k, h => by
    obtain rfl := Except.ok.inj h
    rfl
  | .typeName name, k, h => by
    obtain ⟨k', hk', h⟩ := bind_eq_ok.mp h
    obtain rfl := Except.ok.inj h
    have hname := key_complete name hk'
    exact hname
  | .nested fields, k, h => by
    obtain ⟨ks, hks, h⟩ := bind_eq_ok.mp h
    obtain rfl := Except.ok.inj h
    show Complete ks (0 + fields.length)
    rw [Nat.zero_add]
    exact entryKeys_complete fields hks
  | .instanceOf c, k, h => by
    obtain ⟨k', hk', h⟩ := bind_eq_ok.mp h
    obtain rfl := Except.ok.inj h
    have hc := key_complete c hk'
    exact hc
  | .unsatisfiable raw, k, h => by
    obtain rfl := Except.ok.inj h
    rfl
  | .fieldSpec isa optional, k, h => by
    obtain ⟨k', hk', h⟩ := bind_eq_ok.mp h
    obtain ⟨ko, hko, h⟩ := bind_eq_ok.mp h
    obtain rfl := Except.ok.inj h
    exact (key_complete isa hk').append (key_complete optional hko)
  | .schema _ _ _, k, h => by
    obtain rfl := Except.ok.inj h
    rfl

theorem keys_complete : ∀ (items : List Value) {ks : List Key}, keys items = .ok ks →
    ks.length = items.length ∧ ∀ k ∈ ks, Complete k 1
  | [], ks, h => by
    obtain rfl := Except.ok.inj h
    simp
  | x :: rest, ks, h => by
    obtain ⟨k, hk, h⟩ := bind_eq_ok.mp h
    obtain ⟨ks', hks', h⟩ := bind_eq_ok.mp h
    obtain rfl := Except.ok.inj h
    obtain ⟨hlen, hall⟩ := keys_complete rest hks'
    exact ⟨congrArg (· + 1) hlen, List.forall_mem_cons.mpr ⟨key_complete x hk, hall⟩⟩

/-- Entries are as many keys as there are entries: each of them is a pair. -/
theorem entryKeys_complete : ∀ (es : List (Value × Value)) {ks : Key}, entryKeys es = .ok ks → Complete ks es.length
  | [], ks, h => by
    obtain rfl := Except.ok.inj h
    rfl
  | (k, v) :: rest, ks, h => by
    obtain ⟨kk, hkk, h⟩ := bind_eq_ok.mp h
    obtain ⟨kv, hkv, h⟩ := bind_eq_ok.mp h
    obtain ⟨ks', hks', h⟩ := bind_eq_ok.mp h
    obtain rfl := Except.ok.inj h
    have hpair : Complete (.tuple 2 :: (kk ++ kv)) 1 := (key_complete k hkk).append (key_complete v hkv)
    rw [List.length_cons, Nat.add_comm]
    exact hpair.append (entryKeys_complete rest hks')
end

/-! ### Which values have a key -/

theorem key_of_text? {v : Value} {s : String} (ht : v.text? = some s) : v.key = .ok [.text s] := by
  cases v with
  | atom a =>
    cases a with
    | text kind s' =>
      cases kind <;> simp_all [text?, Value.key, Atom.key]
    | _ => simp [text?] at ht
  | _ => simp [text?] at ht

theorem entryKeys_total : ∀ {es : Entries}, (∀ e ∈ es, (∃ k, e.1.key = .ok k) ∧ ∃ k, e.2.key = .ok k) →
    ∃ ks, entryKeys es = .ok ks
  | [], _ => ⟨[], rfl⟩
  | (x, v) :: rest, hall => by
    obtain ⟨⟨k, hk⟩, ⟨k', hk'⟩⟩ := hall (x, v) List.mem_cons_self
    obtain ⟨ks, hks⟩ := entryKeys_total fun e he => hall e (List.mem_cons_of_mem _ he)
    exact ⟨_, by rw [entryKeys, hk, ok_bind, hk', ok_bind, hks, ok_bind]⟩

end ArgSchema
