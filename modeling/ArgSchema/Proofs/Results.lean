/-
# Results and what is known of them

A computation that may stop gives a value or a fault. What is known of both is passed on
from step to step: `Yields P Q` says that the value satisfies `P`, or the fault `Q`.

Key definitions: `Yields`.
-/
import ArgSchema.Fault

namespace ArgSchema

/-- The value satisfies `P`, or the fault satisfies `Q`. -/
def Yields {ε α : Type} (P : α → Prop) (Q : ε → Prop) : Except ε α → Prop
  | .ok a => P a
  | .error e => Q e

namespace Yields

variable {ε α β : Type} {P P' : α → Prop} {Q Q' : ε → Prop} {x y : Except ε α}

theorem ok {a : α} (h : P a) : Yields P Q (.ok a) := h

theorem error {e : ε} (h : Q e) : Yields P Q (.error e) := h

theorem bind {R : β → Prop} {f : α → Except ε β} (hx : Yields P Q x) (hf : ∀ a, P a → Yields R Q (f a)) :
    Yields R Q (x >>= f) := by
  cases x with
  | ok a => exact hf a hx
  | error e => exact hx

theorem ite {p : Prop} [Decidable p] (hx : Yields P Q x) (hy : Yields P Q y) :
    Yields P Q (if p then x else y) := by
  split
  · exact hx
  · exact hy

theorem mono (h : Yields P Q x) (hP : ∀ a, P a → P' a) (hQ : ∀ e, Q e → Q' e) : Yields P' Q' x := by
  cases x with
  | ok a => exact hP a h
  | error e => exact hQ e h

theorem mapError {ε' : Type} {g : ε → ε'} {Q' : ε' → Prop} (h : Yields P Q x) (hQ : ∀ e, Q e → Q' (g e)) :
    Yields P Q' (x.mapError g) := by
  cases x with
  | ok a => exact h
  | error e => exact hQ e h

theorem mapM {f : α → Except ε β} {R : β → Prop} : ∀ {xs : List α}, (∀ x ∈ xs, Yields R Q (f x)) →
    Yields (fun ys => ∀ y ∈ ys, R y) Q (xs.mapM f)
  | [], _ => fun y hy => by cases hy
  | x :: xs, h => by
    rw [List.mapM_cons]
    refine .bind (h x List.mem_cons_self) fun y hy => ?_
    refine .bind (mapM fun z hz => h z (List.mem_cons_of_mem _ hz)) fun ys hys => ?_
    exact .ok (List.forall_mem_cons.mpr ⟨hy, hys⟩)

/-- What holds at the start and is kept by each step holds at the end. -/
theorem foldlM {f : β → α → Except ε β} {R : β → Prop} : ∀ {xs : List α} {b : β}, R b →
    (∀ b, R b → ∀ x ∈ xs, Yields R Q (f b x)) → Yields R Q (xs.foldlM f b)
  | [], _, hb, _ => hb
  | x :: xs, b, hb, h => by
    rw [List.foldlM_cons]
    exact .bind (h b hb x List.mem_cons_self) fun b hb =>
      foldlM hb fun b hb y hy => h b hb y (List.mem_cons_of_mem _ hy)

end Yields
end ArgSchema
