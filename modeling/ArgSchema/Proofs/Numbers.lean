/-
# Numbers are told exactly

A value that is a real number is worth a rational number, however large or small, or an
infinity, or it is no number at all (`Value.worth?`). The numeric types ask for what a value
is worth and for nothing else: whole numbers are those that are worth an integer, natural
ones an integer that is not negative, finite ones a rational number (`isOfType_numeric`).

To be whole means to leave no remainder when divided by one (`Quantity.isZero_remainder`). For a
double the question is where its lowest bit lies (`exists_int_iff`). The remainder has the sign of
the divisor, so for a negative double it is a sum, and that sum is rounded; it is never rounded
to zero, because no double is finer than the smallest positive one (`Double.isZero_add_one`).

Key definitions: `Worth`, `Value.worth?`, `Value.TypedIff`.
-/
import ArgSchema.Proofs.Relaxing
import Mathlib.Algebra.Order.Field.Rat
import Mathlib.Data.Rat.Floor
import Mathlib.Tactic.Linarith
import Mathlib.Tactic.Ring

namespace ArgSchema

open Value

/-- What a real number is worth: a rational number, an infinity, or nothing that is a number. -/
inductive Worth where
  | rational (q : Rat)
  | infinite (negative : Bool)
  | nan
  deriving DecidableEq, Repr

def Double.worth : Double → Worth
  | .finite negative m e _ => .rational ((if negative then -1 else 1) * (m * 2 ^ e))
  | .infinite negative => .infinite negative
  | .nan _ => .nan

def Quantity.worth : Quantity → Worth
  | .integer n => .rational n
  | .double x => x.worth
  | .fraction q => .rational q

/-- What a value is worth that is an integer, a double or a fraction, also if its class is a
subclass or an enumeration. Booleans and everything else are worth nothing. -/
def Value.worth? : Value → Option Worth
  | .atom (.int _ n) => some (.rational n)
  | .atom (.float _ x) => some x.worth
  | .atom (.fraction q) => some (.rational q)
  | _ => none

/-! ### Powers of two -/

theorem powUp_of_nonpos {base : Nat} {e : Int} (h : e ≤ 0) : powUp base e = 1 := by
  rw [powUp, Int.toNat_of_nonpos h]
  rfl

theorem powUp_natCast (base k : Nat) : powUp base k = base ^ k := rfl

theorem powUp_pos (e : Int) : 0 < powUp 2 e := Nat.pow_pos (by decide)

/-- A power of two is a quotient of natural numbers, one of which is one. -/
theorem zpow_two_eq (e : Int) : (2 : Rat) ^ e = powUp 2 e / powUp 2 (-e) := by
  obtain ⟨k, rfl | rfl⟩ := e.eq_nat_or_neg
  · rw [powUp_of_nonpos (e := -k) (by omega), powUp_natCast, zpow_natCast]
    simp
  · rw [powUp_of_nonpos (e := -k) (by omega), neg_neg, powUp_natCast, zpow_neg, zpow_natCast]
    simp

theorem zpow_two_pos (e : Int) : (0 : Rat) < 2 ^ e := zpow_pos (by norm_num) e

theorem zpow_two_mono {e e' : Int} (h : e ≤ e') : (2 : Rat) ^ e ≤ 2 ^ e' := zpow_le_zpow_right₀ (by norm_num) h

/-- A mantissa gives an integer just if none of its bits lies below the point. -/
theorem exists_int_iff (m : Nat) (e : Int) : (∃ n : Int, (m : Rat) * 2 ^ e = n) ↔ m % powUp 2 (-e) = 0 := by
  have hden : (powUp 2 (-e) : Rat) ≠ 0 := by exact_mod_cast (powUp_pos (-e)).ne'
  have hquotient : (m : Rat) * 2 ^ e = (m * powUp 2 e : Nat) / powUp 2 (-e) := by
    rw [zpow_two_eq, Nat.cast_mul, mul_div_assoc]
  rw [hquotient, ← Nat.dvd_iff_mod_eq_zero]
  constructor
  · rintro ⟨n, hn⟩
    rw [div_eq_iff hden] at hn
    have hint : ((m * powUp 2 e : Nat) : Int) = n * powUp 2 (-e) := by exact_mod_cast hn
    have hdvd : powUp 2 (-e) ∣ m * powUp 2 e := Int.natCast_dvd_natCast.mp ⟨n, hint.trans (mul_comm n _)⟩
    rcases Int.le_total 0 e with h | h
    · rw [powUp_of_nonpos (e := -e) (by omega)]
      exact one_dvd m
    · rwa [powUp_of_nonpos h, mul_one] at hdvd
  · rintro ⟨c, rfl⟩
    refine ⟨c * powUp 2 e, ?_⟩
    rw [div_eq_iff hden]
    push_cast
    ring

/-! ### Doubles -/

theorem exists_int_neg_iff (q : Rat) : (∃ n : Int, -q = n) ↔ ∃ n : Int, q = n := by
  constructor
  · rintro ⟨n, hn⟩
    exact ⟨-n, by rw [Int.cast_neg, ← hn, neg_neg]⟩
  · rintro ⟨n, rfl⟩
    exact ⟨-n, (Int.cast_neg n).symm⟩

namespace Double

/-- Both zeros are at least zero. -/
theorem isNonnegative_iff {x : Double} {q : Rat} (h : x.worth = .rational q) :
    x.isNonnegative = true ↔ 0 ≤ q := by
  cases x with
  | finite negative m e least =>
    obtain rfl := Worth.rational.inj h
    cases negative with
    | false =>
      have hle : (0 : Rat) ≤ m * 2 ^ e := mul_nonneg m.cast_nonneg (zpow_two_pos e).le
      simpa [isNonnegative] using hle
    | true =>
      have hiff : (0 : Rat) ≤ -(m * 2 ^ e) ↔ m = 0 := by
        rw [← neg_mul, mul_nonneg_iff_of_pos_right (zpow_two_pos e)]
        simp
      simpa [isNonnegative] using hiff.symm
  | _ => simp [worth] at h

theorem toRat?_eq_some {x : Double} {q : Rat} : x.toRat? = some q ↔ x.worth = .rational q := by
  cases x with
  | finite negative m e least =>
    have hmk : mkRat (m * powUp 2 e) (powUp 2 (-e)) = m * 2 ^ e := by
      rw [Rat.mkRat_eq_div, zpow_two_eq]
      push_cast
      ring
    cases negative <;> simp [toRat?, worth, hmk]
  | _ => simp [toRat?, worth]

end Double

/-! ### Quotients that are not rounded to zero -/

theorem roundDiv_ne_zero {num den : Nat} (hden : 0 < den) (h : den ≤ num) : roundDiv num den ≠ 0 := by
  have hq : 0 < num / den := Nat.div_pos h hden
  unfold roundDiv
  simp only
  split_ifs <;> omega

theorem atLeastPow_iff {num den : Nat} {e : Int} : atLeastPow num den 2 e = true ↔ (den : Rat) * 2 ^ e ≤ num := by
  have hpos : (0 : Rat) < powUp 2 (-e) := by exact_mod_cast powUp_pos (-e)
  rw [atLeastPow, decide_eq_true_iff, zpow_two_eq, ← mul_div_assoc, div_le_iff₀ hpos]
  exact_mod_cast Iff.rfl

theorem atLeastPow_mono {num den : Nat} {e e' : Int} (h : atLeastPow num den 2 e = true) (he : e' ≤ e) :
    atLeastPow num den 2 e' = true := by
  rw [atLeastPow_iff] at h ⊢
  exact (mul_le_mul_of_nonneg_left (zpow_two_mono he) den.cast_nonneg).trans h

/-- The logarithm of a quotient is found from those of its parts, off by one at most. -/
theorem atLeastPow_log2 {num den : Nat} (hnum : num ≠ 0) :
    atLeastPow num den 2 ((num.log2 : Int) - den.log2 - 1) = true := by
  have hlow : 2 ^ num.log2 ≤ num := Nat.log2_self_le hnum
  have hhigh : den ≤ 2 ^ (den.log2 + 1) := Nat.lt_log2_self.le
  rw [atLeastPow_iff]
  calc (den : Rat) * 2 ^ ((num.log2 : Int) - den.log2 - 1)
      ≤ 2 ^ (den.log2 + 1) * 2 ^ ((num.log2 : Int) - den.log2 - 1) := by
        refine mul_le_mul_of_nonneg_right ?_ (zpow_two_pos _).le
        exact_mod_cast hhigh
    _ = 2 ^ num.log2 := by
        rw [← zpow_natCast, ← zpow_natCast, ← zpow_add₀ (by norm_num)]
        congr 1
        push_cast
        ring
    _ ≤ num := by exact_mod_cast hlow

namespace Double

theorem isZero_ofParts (negative : Bool) {m : Nat} (hm : m ≠ 0) {e : Int} (least : leastExponent ≤ e) :
    (ofParts negative m e least).isZero = false := by
  unfold ofParts
  split
  · rfl
  · exact beq_false_of_ne hm

/-- A quotient that is no less than the smallest double reaches the power it is rounded at. -/
theorem atLeastPow_exponentFor {num den : Nat} (hnum : num ≠ 0) (h : atLeastPow num den 2 leastExponent = true) :
    atLeastPow num den 2 (exponentFor num den) = true := by
  unfold exponentFor
  simp only
  generalize hscale : (if atLeastPow num den 2 ((num.log2 : Int) - den.log2) = true then
    (num.log2 : Int) - den.log2 else (num.log2 : Int) - den.log2 - 1) = scale
  have hreach : atLeastPow num den 2 scale = true := by
    rw [← hscale]
    split
    · assumption
    · exact atLeastPow_log2 hnum
  rcases max_choice (scale - 52) leastExponent with hmax | hmax
  · rw [hmax]
    exact atLeastPow_mono hreach (by omega)
  · rw [hmax]
    exact h

/-- A quotient that is no less than the smallest double is not rounded to zero. -/
theorem isZero_ofRatio {num den : Nat} (negative : Bool) (hnum : num ≠ 0) (hden : 0 < den)
    (h : atLeastPow num den 2 leastExponent = true) : (ofRatio negative num den).isZero = false := by
  have hexp := atLeastPow_exponentFor hnum h
  have hround := roundDiv_ne_zero (Nat.mul_pos hden (powUp_pos _)) (of_decide_eq_true hexp)
  unfold ofRatio
  rw [if_neg hnum]
  simp only
  split
  · exact isZero_ofParts _ (by decide) _
  · exact isZero_ofParts _ hround _

theorem isZero_ofRat {q : Rat} (h : 2 ^ leastExponent ≤ q) : (ofRat q).isZero = false := by
  have hnum : 0 < q.num := Rat.num_pos.mpr ((zpow_two_pos _).trans_le h)
  have habs : (q.num.natAbs : Rat) = q * q.den := by
    have hcast : ((q.num.natAbs : Int) : Rat) = q.num := by rw [Int.natAbs_of_nonneg hnum.le]
    rw [Rat.mul_den_eq_num, ← hcast]
    rfl
  refine isZero_ofRatio _ (by omega) q.den_pos (atLeastPow_iff.mpr ?_)
  rw [habs, mul_comm]
  exact mul_le_mul_of_nonneg_right h q.den.cast_nonneg

/-! ### Remainders -/

/-- What a negative part below the point leaves of one is no less than the smallest double. -/
theorem isZero_add_one {m : Nat} {e : Int} (least : leastExponent ≤ e) (hm : m ≠ 0)
    (hbelow : m < powUp 2 (-e)) : ((Double.finite true m e least).add one).isZero = false := by
  have he : e ≤ 0 := by
    by_contra hpos
    rw [powUp_of_nonpos (by omega)] at hbelow
    omega
  have hunit : (2 : Rat) ^ e * powUp 2 (-e) = 1 := by
    have hden : (powUp 2 (-e) : Rat) ≠ 0 := by exact_mod_cast (powUp_pos (-e)).ne'
    rw [zpow_two_eq, powUp_of_nonpos he, Nat.cast_one, one_div_mul_cancel hden]
  have hrest : (m : Rat) * 2 ^ e + 2 ^ e ≤ 1 := by
    have hle : (m : Rat) + 1 ≤ powUp 2 (-e) := by exact_mod_cast hbelow
    calc (m : Rat) * 2 ^ e + 2 ^ e = 2 ^ e * (m + 1) := by ring
      _ ≤ 2 ^ e * powUp 2 (-e) := mul_le_mul_of_nonneg_left hle (zpow_two_pos e).le
      _ = 1 := hunit
  have hsum : (2 : Rat) ^ leastExponent ≤ -((m : Rat) * 2 ^ e) + 1 := by
    have hleast := zpow_two_mono least
    linarith
  have hfinite : (Double.finite true m e least).toRat? = some (-((m : Rat) * 2 ^ e)) :=
    toRat?_eq_some.mpr (by simp [worth])
  have hone : one.toRat? = some 1 := toRat?_eq_some.mpr (by simp [worth, one])
  show (if (Double.finite true m e least).toRat?.getD 0 + one.toRat?.getD 0 = 0 then _ else
    ofRat ((Double.finite true m e least).toRat?.getD 0 + one.toRat?.getD 0)).isZero = false
  rw [hfinite, hone, Option.getD_some, Option.getD_some, if_neg ((zpow_two_pos _).trans_le hsum).ne']
  exact isZero_ofRat hsum

/-- No bit lies below the point of a finite double that leaves no remainder. -/
theorem isZero_remainder_finite (negative : Bool) (m : Nat) {e : Int} (least : leastExponent ≤ e) :
    (Double.finite negative m e least).remainder.isZero = (m % powUp 2 (-e) == 0) := by
  unfold remainder
  simp only
  by_cases hbelow : m % powUp 2 (-e) = 0
  · rw [if_pos hbelow, hbelow]
    rfl
  · rw [if_neg hbelow, beq_false_of_ne hbelow]
    cases negative with
    | true => exact isZero_add_one least hbelow (Nat.mod_lt _ (powUp_pos _))
    | false => simpa [isZero] using hbelow

theorem isZero_remainder (x : Double) : x.remainder.isZero = true ↔ ∃ n : Int, x.worth = .rational n := by
  cases x with
  | finite negative m e least =>
    have hsign : (∃ n : Int, (if negative then (-1 : Rat) else 1) * (m * 2 ^ e) = n) ↔
        ∃ n : Int, (m : Rat) * 2 ^ e = n := by
      cases negative
      · simp
      · simpa using exists_int_neg_iff ((m : Rat) * 2 ^ e)
    simp only [isZero_remainder_finite, worth, Worth.rational.injEq, beq_iff_eq]
    rw [hsign, exists_int_iff]
  | _ => simp [remainder, isZero, worth]

/-- The remainder of a tiny negative number is rounded to one. -/
example : (Double.finite true 1 (-60) (by decide)).remainder = .finite false leastMantissa (-52) (by decide) := by
  decide +kernel

end Double

/-! ### Real numbers -/

namespace Quantity

/-- **Division by one leaves no remainder** just if a number is worth an integer. -/
theorem isZero_remainder (q : Quantity) : q.remainder.isZero = true ↔ ∃ n : Int, q.worth = .rational n := by
  cases q with
  | integer n => simp [remainder, isZero, worth]
  | double x => exact x.isZero_remainder
  | fraction q =>
    have hfloor : q - q.floor = 0 ↔ ∃ n : Int, q = n := by
      rw [sub_eq_zero]
      refine ⟨fun h => ⟨_, h⟩, ?_⟩
      rintro ⟨n, rfl⟩
      rw [Rat.floor_intCast]
    simpa [remainder, isZero, worth] using hfloor

theorem isWhole_iff (q : Quantity) : q.isWhole = true ↔ ∃ n : Int, q.worth = .rational n := q.isZero_remainder

theorem isNonnegative_iff {q : Quantity} {r : Rat} (h : q.worth = .rational r) : q.isNonnegative = true ↔ 0 ≤ r := by
  cases q with
  | integer n =>
    obtain rfl := Worth.rational.inj h
    simp [isNonnegative]
  | double x => exact Double.isNonnegative_iff h
  | fraction q =>
    obtain rfl := Worth.rational.inj h
    simp [isNonnegative]

theorem isFinite_iff (q : Quantity) : q.isFinite = true ↔ ∃ r, q.worth = .rational r := by
  cases q with
  | double x => cases x <;> simp [isFinite, Double.isFinite, worth, Double.worth]
  | _ => simp [isFinite, worth]

end Quantity

/-- What is asked of the number that a value is, said by what the value is worth. -/
theorem quantity?_any_iff {test : Quantity → Bool} {P : Worth → Prop}
    (htest : ∀ q, q.worth ≠ .nan → (test q = true ↔ P q.worth)) (hnan : ¬ P .nan) (v : Value) :
    v.quantity?.any test = true ↔ ∃ w, v.worth? = some w ∧ P w := by
  have hsome : ∀ q, q.worth ≠ .nan → ((some q).any test = true ↔ ∃ w, some q.worth = some w ∧ P w) := by
    intro q hq
    simpa using htest q hq
  cases v with
  | atom a =>
    cases a with
    | int kind n => exact hsome (.integer n) (by simp [Quantity.worth])
    | fraction q => exact hsome (.fraction q) (by simp [Quantity.worth])
    | float subclass x =>
      cases x with
      | nan id => simpa [quantity?, worth?, Double.isNaN, Double.worth] using hnan
      | finite negative m e least =>
        exact hsome (.double (.finite negative m e least)) (by simp [Quantity.worth, Double.worth])
      | infinite negative => exact hsome (.double (.infinite negative)) (by simp [Quantity.worth, Double.worth])
    | _ => simp [quantity?, worth?]
  | _ => simp [quantity?, worth?]

/-! ### Numeric types -/

/-- A value is of a named type. -/
def Value.IsOf (v : Value) (t : NamedType) : Prop := v.isOfType (ofText t.name) = .ok true

/-- Whether a value is of a named type is told, and it is just if `p` holds. -/
def Value.TypedIff (v : Value) (t : NamedType) (p : Prop) : Prop :=
  ∃ b, v.isOfType (ofText t.name) = .ok b ∧ (b = true ↔ p)

theorem Value.TypedIff.isOf {v : Value} {t : NamedType} {p : Prop} (h : v.TypedIff t p) : v.IsOf t ↔ p := by
  obtain ⟨b, hb, hiff⟩ := h
  rw [IsOf, hb, ← hiff, Except.ok.injEq]

theorem Value.TypedIff.of_not {v : Value} {t : NamedType} {p : Prop} (h : v.TypedIff t p) (hp : ¬ p) :
    v.isOfType (ofText t.name) = .ok false := by
  obtain ⟨b, hb, hiff⟩ := h
  rw [hb, Bool.eq_false_iff.mpr (mt hiff.mp hp)]

theorem typedIff_of_holds {v : Value} {t : NamedType} {p : Prop} {b : Bool} (h : t.holds v = .ok b)
    (hb : b = true ↔ p) : v.TypedIff t p := ⟨b, by rw [isOfType_name rfl, h], hb⟩

section

variable (v : Value)

theorem typedIff_real {t : NamedType} (ht : t = .number ∨ t = .real) :
    v.TypedIff t (∃ w, v.worth? = some w ∧ w ≠ .nan) := by
  have hany : v.quantity?.isSome = v.quantity?.any fun _ => true := by cases v.quantity? <;> rfl
  have htest : ∀ q : Quantity, q.worth ≠ .nan → (true = true ↔ q.worth ≠ .nan) := fun q hq => by simpa using hq
  have hreal : v.quantity?.isSome = true ↔ ∃ w, v.worth? = some w ∧ w ≠ .nan := by
    rw [hany]
    exact quantity?_any_iff (P := (· ≠ .nan)) htest (by simp) v
  rcases ht with rfl | rfl <;> exact typedIff_of_holds rfl hreal

theorem typedIff_finite : v.TypedIff .finite (∃ q, v.worth? = some (.rational q)) := by
  refine typedIff_of_holds rfl ?_
  rw [quantity?_any_iff (P := fun w => ∃ q, w = .rational q) (fun q _ => q.isFinite_iff) (by simp)]
  grind

theorem typedIff_whole : v.TypedIff .whole (∃ n : Int, v.worth? = some (.rational n)) := by
  refine typedIff_of_holds rfl ?_
  rw [quantity?_any_iff (P := fun w => ∃ n : Int, w = .rational n) (fun q _ => q.isWhole_iff) (by simp)]
  grind

theorem typedIff_natural : v.TypedIff .natural (∃ n : Int, v.worth? = some (.rational n) ∧ 0 ≤ n) := by
  have htest : ∀ q : Quantity, q.worth ≠ .nan →
      ((q.isWhole && q.isNonnegative) = true ↔ ∃ n : Int, q.worth = .rational n ∧ 0 ≤ n) := by
    intro q _
    rw [Bool.and_eq_true, q.isWhole_iff]
    constructor
    · rintro ⟨⟨n, hn⟩, hnonneg⟩
      exact ⟨n, hn, by exact_mod_cast (Quantity.isNonnegative_iff hn).mp hnonneg⟩
    · rintro ⟨n, hn, hnonneg⟩
      exact ⟨⟨n, hn⟩, (Quantity.isNonnegative_iff hn).mpr (by exact_mod_cast hnonneg)⟩
  refine typedIff_of_holds rfl ?_
  rw [quantity?_any_iff (P := fun w => ∃ n : Int, w = .rational n ∧ 0 ≤ n) htest (by simp)]
  grind

/-- **The numeric types tell exactly what a value is worth**, without a fault: an integer, an
integer that is not negative, a rational number, anything that is a number. So each of natural,
whole, finite and real numbers are among the next, and what is no real number is of none of
these types. -/
theorem isOfType_numeric :
    v.TypedIff .whole (∃ n : Int, v.worth? = some (.rational n)) ∧
    v.TypedIff .natural (∃ n : Int, v.worth? = some (.rational n) ∧ 0 ≤ n) ∧
    v.TypedIff .finite (∃ q, v.worth? = some (.rational q)) ∧
    v.TypedIff .number (∃ w, v.worth? = some w ∧ w ≠ .nan) ∧
    v.TypedIff .real (∃ w, v.worth? = some w ∧ w ≠ .nan) ∧
    (v.IsOf .natural → v.IsOf .whole) ∧ (v.IsOf .whole → v.IsOf .finite) ∧ (v.IsOf .finite → v.IsOf .number) ∧
    (v.IsOf .number ↔ v.IsOf .real) ∧
    (v.worth? = none → ∀ t ∈ [NamedType.natural, .whole, .finite, .number, .real],
      v.isOfType (ofText t.name) = .ok false) := by
  have hwhole := typedIff_whole v
  have hnatural := typedIff_natural v
  have hfinite := typedIff_finite v
  have hnumber := typedIff_real v (.inl rfl)
  have hreal := typedIff_real v (.inr rfl)
  refine ⟨hwhole, hnatural, hfinite, hnumber, hreal, ?_, ?_, ?_, hnumber.isOf.trans hreal.isOf.symm, ?_⟩
  · rw [hnatural.isOf, hwhole.isOf]
    exact fun ⟨n, hn, _⟩ => ⟨n, hn⟩
  · rw [hwhole.isOf, hfinite.isOf]
    exact fun ⟨n, hn⟩ => ⟨n, hn⟩
  · rw [hfinite.isOf, hnumber.isOf]
    exact fun ⟨q, hq⟩ => ⟨_, hq, by simp⟩
  · intro hnone t ht
    simp only [List.mem_cons, List.not_mem_nil, or_false] at ht
    rcases ht with rfl | rfl | rfl | rfl | rfl
    · exact hnatural.of_not (by simp [hnone])
    · exact hwhole.of_not (by simp [hnone])
    · exact hfinite.of_not (by simp [hnone])
    · exact hnumber.of_not (by simp [hnone])
    · exact hreal.of_not (by simp [hnone])

end

/-- The negative zero is whole and not negative, hence natural. -/
example : (Double.zero true).isWhole = true ∧ (Double.zero true).isNonnegative = true := by decide +kernel

end ArgSchema
