/-
# What stops the reading of a JSON text

A JSON text gives a value that has lengths at every depth, or an error at a place. Of the
errors only an integer is of its own kind: it has more digits than an integer is read from
(`Json.reads_read`).

Key definitions: `Json.OnlyLong`.
-/
import ArgSchema.Json.Reader
import ArgSchema.Proofs.PlainData
import ArgSchema.Proofs.Results
import Mathlib.Tactic.FinCases

namespace ArgSchema

open Value

namespace Json

/-- A reader that stops at an integer has met one of too many digits. -/
def OnlyLong : Stop → Prop
  | (.digits count, _) => digitLimit < count
  | _ => True

theorem reads_stringBody (opened : Nat) (read cs : List Char) :
    Yields (fun _ => True) OnlyLong (stringBody opened read cs) := by
  fun_induction stringBody opened read cs <;> trivial

theorem reads_number (cs : List Char) : Yields (fun p => Measured p.1) OnlyLong (number cs) := by
  unfold number
  simp only
  split
  · trivial
  · split
    · split
      · rename_i hlong
        exact hlong
      · exact .ok (measured_atom ⟨_, rfl⟩)
    · exact .ok (measured_atom ⟨_, rfl⟩)

theorem reads_scalar (cs : List Char) : Yields (fun p => Measured p.1) OnlyLong (scalar cs) := by
  have hwords : ∀ e ∈ words, Measured e.2 := by
    intro e he
    fin_cases he <;> exact measured_atom ⟨_, rfl⟩
  unfold scalar
  split
  · rename_i w v hfind
    exact .ok (hwords _ (List.mem_of_find?_eq_some hfind))
  · exact reads_number cs

theorem measured_insert {k : Key} {x v : Value} (hx : Measured x) (hv : Measured v) : ∀ {es : Entries},
    (∀ e ∈ es, Measured e.1 ∧ Measured e.2) → ∀ e ∈ Entries.insert k x v es, Measured e.1 ∧ Measured e.2
  | [], _, e, he => by
    obtain rfl := List.mem_singleton.mp he
    exact ⟨hx, hv⟩
  | (x', v') :: rest, hes, e, he => by
    have hfirst := hes (x', v') List.mem_cons_self
    have hrest : ∀ e ∈ rest, Measured e.1 ∧ Measured e.2 := fun e he => hes e (List.mem_cons_of_mem _ he)
    unfold Entries.insert at he
    split at he
    · rcases List.mem_cons.mp he with rfl | he
      · exact ⟨hfirst.1, hv⟩
      · exact hrest e he
    · rcases List.mem_cons.mp he with rfl | he
      · exact hfirst
      · exact measured_insert hx hv hrest e he

mutual

theorem reads_value : ∀ (bound : Nat) (cs : List Char), Yields (fun p => Measured p.1) OnlyLong (value bound cs)
  | 0, _ => trivial
  | bound + 1, cs => by
    unfold value
    split
    · exact .bind (reads_stringBody _ _ _) fun _ _ => .ok (measured_atom ⟨_, rfl⟩)
    · split
      · exact .ok ⟨⟨_, rfl⟩, fun _ hw => by cases hw⟩
      · exact .bind (reads_items bound _) fun p hp => .ok ⟨⟨_, rfl⟩, hp⟩
    · split
      · exact .ok (measured_mapping fun _ he => by cases he)
      · exact .bind (reads_members bound [] _ fun _ he => by cases he) fun p hp => .ok (measured_mapping hp)
    · exact reads_scalar _

theorem reads_items : ∀ (bound : Nat) (cs : List Char),
    Yields (fun p => ∀ x ∈ p.1, Measured x) OnlyLong (items bound cs)
  | 0, _ => trivial
  | bound + 1, cs => by
    unfold items
    refine .bind (reads_value bound cs) fun p hp => ?_
    obtain ⟨x, rest⟩ := p
    simp only
    split
    · exact .ok (List.forall_mem_singleton.mpr hp)
    · refine .bind (reads_items bound _) fun q hq => .ok ?_
      exact List.forall_mem_cons.mpr ⟨hp, hq⟩
    · trivial

theorem reads_members : ∀ (bound : Nat) (es : Entries) (cs : List Char), (∀ e ∈ es, Measured e.1 ∧ Measured e.2) →
    Yields (fun p => ∀ e ∈ p.1, Measured e.1 ∧ Measured e.2) OnlyLong (members bound es cs)
  | 0, _, _, _ => trivial
  | bound + 1, es, cs, hes => by
    unfold members
    split
    · refine .bind (reads_stringBody _ _ _) fun p _ => ?_
      obtain ⟨name, rest⟩ := p
      simp only
      split
      · refine .bind (reads_value bound _) fun q hq => ?_
        obtain ⟨v, rest⟩ := q
        have hes' := measured_insert (k := [.text name]) (measured_atom ⟨_, rfl⟩ : Measured (ofText name)) hq hes
        simp only
        split
        · exact .ok hes'
        · exact reads_members bound _ _ hes'
        · trivial
      · trivial
    · trivial

end

theorem reads_whole (cs : List Char) : Yields Measured OnlyLong (whole cs) := by
  refine .ite trivial (.bind (reads_value _ _) fun p hp => ?_)
  simp only
  split
  · exact .ok hp
  · trivial

/-- A JSON text gives a value whose lengths are no faults. Of its errors only an integer of too
many digits is of its own kind. -/
theorem reads_read (text : String) :
    Yields Measured (fun p => ∀ count, p.reason = .digits count → digitLimit < count) (read text) := by
  refine (reads_whole text.toList).mapError fun stop hstop count hcount => ?_
  obtain ⟨reason, left⟩ := stop
  obtain rfl : reason = .digits count := hcount
  exact hstop

end Json
end ArgSchema
