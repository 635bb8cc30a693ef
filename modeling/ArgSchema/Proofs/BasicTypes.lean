/-
# Basic types

Five of the named types part the values among them: a value is null, a boolean, a text, a number
or an object, and no two of these (`basicTypes_partition`). Each type is asked for on its own, by
classes that overlap: booleans are integers, the members of an enumeration may be, and text is
a sequence. What keeps the types apart is the order of the classes: the basic type of a value is
found from its class (`Class.basicType?`), but for a number that is not one.

Bytes, decimals, complex numbers and what is not a number are left over, and are of no named
type at all; empty bytes are only empty.

Key definitions: `Value.Genuine`, `Value.Untyped`, `Value.basicType?`.
-/
import ArgSchema.Proofs.Numbers

namespace ArgSchema

open Value

/-- The named types that part the values among them. -/
def NamedType.basic : List NamedType := [.null, .boolean, .string, .number, .object]

/-- An object that holds nothing, or an exception, is of a class that has such instances; the
class of any other value goes with what it holds. -/
def Value.Genuine : Value → Prop
  | .atom (.object c _) => c ∈ [Class.object, .plain, .sub, .callMe]
  | .exception c .. => c.isSubclass .baseException = true
  | _ => True

/-- Bytes, decimals, complex numbers and what is not a number. -/
def Value.Untyped (v : Value) : Prop :=
  v.isA .bytes = true ∨ v.isA .decimal = true ∨ v.isA .complex = true ∨ v.worth? = some .nan

/-! ### Basic types of classes -/

namespace Class

theorem mem_all (c : Class) : c ∈ all := by
  have hall : all.contains c = true := by cases c <;> rfl
  exact List.contains_iff_mem.mp hall

/-- What can be told of a class can be told of all, one by one. -/
instance {P : Class → Prop} [DecidablePred P] : Decidable (∀ c, P c) :=
  decidable_of_iff (∀ c ∈ all, P c) ⟨fun h c => h c (mem_all c), fun h c _ => h c⟩

/-- The basic type that the instances of a class are of. The order matters: booleans are
numbers. -/
def basicType? (c : Class) : Option NamedType :=
  if c = .noneType then some .null
  else if c.isSubclass .bool then some .boolean
  else if c.isSubclass .str then some .string
  else if c.isSubclass .real then some .number
  else if c.isSubclass .bytes || c.isSubclass .number then none
  else some .object

theorem basicType?_null : ∀ {c : Class}, c.basicType? = some .null ↔ c = .noneType := by
  decide +kernel

theorem basicType?_boolean : ∀ {c : Class}, c.basicType? = some .boolean ↔ c.isSubclass .bool = true := by
  decide +kernel

theorem basicType?_object : ∀ {c : Class}, c.basicType? = some .object ↔
    c ≠ .noneType ∧ (c.isSubclass .str || c.isSubclass .bytes || c.isSubclass .number) = false := by
  decide +kernel

theorem basicType?_none : ∀ {c : Class},
    c.isSubclass .bytes = true ∨ c.isSubclass .decimal = true ∨ c.isSubclass .complex = true → c.basicType? = none := by
  decide +kernel

theorem metaclass_callable : ∀ c : Class, c.metaclass.isSubclass .callable = true := by
  decide +kernel

/-- What can be called is an object, and so are exceptions. -/
theorem basicType?_callable : ∀ {c : Class},
    c.isSubclass .callable = true ∨ c.isSubclass .baseException = true → c.basicType? = some .object := by
  decide +kernel

end Class

/-! ### Basic types of values -/

namespace Value

/-- The basic type of a value, by what the value holds. -/
def basicType? : Value → Option NamedType
  | .atom .null => some .null
  | .atom (.bool _) => some .boolean
  | .atom (.text .plain _) | .atom (.text .subclass _) => some .string
  | .atom (.int ..) | .atom (.fraction _) => some .number
  | .atom (.float _ x) => if x.isNaN then none else some .number
  | .atom (.decimal _) | .atom (.complex ..) | .atom (.bytes .constant _) => none
  | _ => some .object

variable {v : Value}

/-- Null, text and numbers are told by what the value holds. -/
theorem basicType?_tests (v : Value) : v.isNull = (v.basicType? == some .null) ∧
    v.text?.isSome = (v.basicType? == some .string) ∧ v.quantity?.isSome = (v.basicType? == some .number) ∧
    v.basicType?.all (fun t => decide (t ∈ NamedType.basic)) = true := by
  cases v with
  | atom a =>
    cases a with
    | float subclass x => cases x <;> exact ⟨rfl, rfl, rfl, rfl⟩
    | text kind s => cases kind <;> exact ⟨rfl, rfl, rfl, rfl⟩
    | bytes kind data => cases kind <;> exact ⟨rfl, rfl, rfl, rfl⟩
    | _ => exact ⟨rfl, rfl, rfl, rfl⟩
  | _ => exact ⟨rfl, rfl, rfl, rfl⟩

theorem basicType?_mem {t : NamedType} (h : v.basicType? = some t) : t ∈ NamedType.basic := by
  obtain ⟨-, -, -, hall⟩ := basicType?_tests v
  rw [h, Option.all_some] at hall
  exact of_decide_eq_true hall

/-- The values that are left over. -/
theorem basicType?_eq_none (h : v.basicType? = none) : (∃ data, v = .atom (.bytes .constant data)) ∨
    (∃ d, v = .atom (.decimal d)) ∨ (∃ re im, v = .atom (.complex re im)) ∨
    ∃ subclass id, v = .atom (.float subclass (.nan id)) := by
  cases v with
  | atom a =>
    cases a with
    | float subclass x =>
      cases x with
      | nan id => exact .inr (.inr (.inr ⟨subclass, id, rfl⟩))
      | _ => cases h
    | text kind s => cases kind <;> cases h
    | bytes kind data =>
      cases kind with
      | constant => exact .inl ⟨data, rfl⟩
      | _ => cases h
    | decimal d => exact .inr (.inl ⟨d, rfl⟩)
    | complex re im => exact .inr (.inr (.inl ⟨re, im, rfl⟩))
    | _ => cases h
  | _ => cases h

theorem basicType?_nan (h : v.worth? = some .nan) : v.basicType? = none ∧ v.classOf.basicType? = some .number := by
  cases v with
  | atom a =>
    cases a with
    | float subclass x =>
      cases x with
      | nan id => cases subclass <;> exact ⟨rfl, rfl⟩
      | _ => cases h
    | _ => cases h
  | _ => cases h

/-- The basic type is that of the class, but for a number that is not one. -/
theorem Genuine.basicType?_classOf (hv : v.Genuine) (hnan : v.worth? ≠ some .nan) :
    v.classOf.basicType? = v.basicType? := by
  cases v with
  | atom a =>
    cases a with
    | float subclass x =>
      cases x with
      | nan id => exact absurd rfl hnan
      | _ => cases subclass <;> rfl
    | int kind n => cases kind <;> rfl
    | text kind s => cases kind <;> rfl
    | bytes kind data => cases kind <;> rfl
    | function f => cases f <;> rfl
    | cls c => exact Class.basicType?_callable (.inl (Class.metaclass_callable c))
    | typeAlias a => cases a <;> rfl
    | object c id =>
      simp only [Genuine, List.mem_cons, List.not_mem_nil, or_false] at hv
      rcases hv with rfl | rfl | rfl | rfl <;> rfl
    | _ => rfl
  | collection kind id items => cases kind <;> rfl
  | mapping kind id entries => cases kind <;> rfl
  | exception c id args files => exact Class.basicType?_callable (.inr hv)
  | _ => rfl

theorem holds_of_none (h : v.basicType? = none) {t : NamedType} (ht : t ≠ .empty) : t.holds v = .ok false := by
  rcases basicType?_eq_none h with ⟨data, rfl⟩ | ⟨d, rfl⟩ | ⟨re, im, rfl⟩ | ⟨subclass, id, rfl⟩
  case inr.inr.inr =>
    cases t with
    | empty => exact absurd rfl ht
    | _ => cases subclass <;> rfl
  all_goals
    cases t with
    | empty => exact absurd rfl ht
    | _ => rfl

theorem isEmpty_of_none (h : v.basicType? = none) :
    ∃ b, v.isEmpty = .ok b ∧ (b = true ↔ v = .atom (.bytes .constant [])) := by
  rcases basicType?_eq_none h with ⟨data, rfl⟩ | ⟨d, rfl⟩ | ⟨re, im, rfl⟩ | ⟨subclass, id, rfl⟩
  · exact ⟨some data.length == some 0, rfl, by simp⟩
  all_goals exact ⟨false, rfl, by simp⟩

/-- What is left over is of no named type; only empty bytes are empty. -/
theorem typedIff_of_none (h : v.basicType? = none) (t : NamedType) :
    v.TypedIff t (t = .empty ∧ v = .atom (.bytes .constant [])) := by
  by_cases ht : t = .empty
  · obtain ⟨b, hb, hiff⟩ := isEmpty_of_none h
    subst ht
    exact typedIff_of_holds hb (by simpa using hiff)
  · exact typedIff_of_holds (holds_of_none h ht) (by simp [ht])

/-- But for numbers, the class tells the basic type. -/
theorem Genuine.basicType?_eq_some (hv : v.Genuine) {t : NamedType} (ht : t ≠ .number) :
    v.basicType? = some t ↔ v.classOf.basicType? = some t := by
  by_cases hnan : v.worth? = some .nan
  · obtain ⟨hnone, hnumber⟩ := basicType?_nan hnan
    simp [hnone, hnumber, ht.symm]
  · rw [hv.basicType?_classOf hnan]

theorem Genuine.basicType?_boolean (hv : v.Genuine) : v.basicType? = some .boolean ↔ v.isA .bool = true := by
  rw [isA, ← Class.basicType?_boolean]
  exact hv.basicType?_eq_some (by decide)

theorem Genuine.basicType?_object (hv : v.Genuine) : v.basicType? = some .object ↔ v.isObject = true := by
  have hnull : v.isNull = true ↔ v.classOf = .noneType := by
    rw [← Class.basicType?_null, ← hv.basicType?_eq_some (by decide), (basicType?_tests v).1, beq_iff_eq]
  rw [hv.basicType?_eq_some (by decide), Class.basicType?_object, Ne, ← hnull, isObject]
  simp [isA, and_assoc]

/-- Each basic type is told of a value just if it is the basic type of the value. -/
theorem Genuine.typedIff_basic (hv : v.Genuine) {t : NamedType} (ht : t ∈ NamedType.basic) :
    v.TypedIff t (v.basicType? = some t) := by
  obtain ⟨hnull, hstring, hnumber, -⟩ := basicType?_tests v
  simp only [NamedType.basic, List.mem_cons, List.not_mem_nil, or_false] at ht
  rcases ht with rfl | rfl | rfl | rfl | rfl
  · exact typedIff_of_holds rfl (by rw [hnull, beq_iff_eq])
  · exact typedIff_of_holds rfl hv.basicType?_boolean.symm
  · exact typedIff_of_holds rfl (by rw [hstring, beq_iff_eq])
  · exact typedIff_of_holds rfl (by rw [hnumber, beq_iff_eq])
  · exact typedIff_of_holds rfl hv.basicType?_object.symm

/-- What is left over has no basic type, and only that. -/
theorem Genuine.untyped_iff (hv : v.Genuine) : v.Untyped ↔ v.basicType? = none := by
  constructor
  · intro hu
    by_cases hnan : v.worth? = some .nan
    · exact (basicType?_nan hnan).1
    · rw [← hv.basicType?_classOf hnan]
      refine Class.basicType?_none ?_
      simpa [Untyped, isA, hnan] using hu
  · intro hnone
    rcases basicType?_eq_none hnone with ⟨data, rfl⟩ | ⟨d, rfl⟩ | ⟨re, im, rfl⟩ | ⟨subclass, id, rfl⟩
    · exact .inl rfl
    · exact .inr (.inl rfl)
    · exact .inr (.inr (.inl rfl))
    · exact .inr (.inr (.inr rfl))

/-! ### Types that lie among the objects -/

theorem isOf_iff_holds {t : NamedType} : v.IsOf t ↔ t.holds v = .ok true := by
  rw [IsOf, isOfType_name rfl]

theorem isOf_above {t t' : NamedType} (h : t' ∈ t.above) (hv : v.IsOf t) : v.IsOf t' := by
  rw [isOf_iff_holds] at hv ⊢
  obtain ⟨b, hb, himp⟩ := NamedType.holds_above h v true hv
  rw [hb, himp rfl]

/-- Functions are objects because what can be called is; the other types are right below. -/
theorem Genuine.isOf_object (hv : v.Genuine) {t : NamedType}
    (ht : t ∈ [NamedType.array, .plainObject, .date, .regexp, .element, .function]) (h : v.IsOf t) : v.IsOf .object := by
  by_cases hfunction : t = .function
  · subst hfunction
    have hcall : v.isA .callable = true := Except.ok.inj (isOf_iff_holds.mp h)
    rw [(hv.typedIff_basic (by decide)).isOf, hv.basicType?_eq_some (by decide)]
    exact Class.basicType?_callable (.inl hcall)
  · refine isOf_above ?_ h
    revert ht hfunction
    cases t <;> decide

theorem not_array_plainObject : ¬ (v.IsOf .array ∧ v.IsOf .plainObject) := by
  rw [isOf_iff_holds, isOf_iff_holds]
  rintro ⟨harray, hmapping⟩
  have hitems : v.listItems?.isSome = true := Except.ok.inj harray
  have hentries : v.entries?.isSome = true := Except.ok.inj hmapping
  cases v with
  | mapping kind id entries => cases hitems
  | _ => cases hentries

end Value

/-- **The basic types part the values**: of each value but bytes, decimals, complex numbers and
what is not a number, exactly one of them holds. Those are of no named type at all, except that
empty bytes are empty. Arrays, plain objects, dates, patterns, elements and functions lie among
the objects, and no array is a plain object. -/
theorem basicTypes_partition {v : Value} (hv : v.Genuine) :
    (∀ t ∈ NamedType.basic, ∃ b, v.isOfType (ofText t.name) = .ok b) ∧
    (¬ v.Untyped → ∃! t, t ∈ NamedType.basic ∧ v.IsOf t) ∧
    (v.Untyped → ∀ t, v.TypedIff t (t = .empty ∧ v = .atom (.bytes .constant []))) ∧
    (∀ t ∈ [NamedType.array, .plainObject, .date, .regexp, .element, .function], v.IsOf t → v.IsOf .object) ∧
    ¬ (v.IsOf .array ∧ v.IsOf .plainObject) := by
  refine ⟨fun t ht => ?_, fun htyped => ?_, fun hu => typedIff_of_none (hv.untyped_iff.mp hu),
    fun t ht => hv.isOf_object ht, not_array_plainObject⟩
  · obtain ⟨b, hb, -⟩ := hv.typedIff_basic ht
    exact ⟨b, hb⟩
  · obtain ⟨t, ht⟩ := Option.ne_none_iff_exists'.mp (mt hv.untyped_iff.mpr htyped)
    have hmem : t ∈ NamedType.basic := basicType?_mem ht
    refine ⟨t, ⟨hmem, (hv.typedIff_basic hmem).isOf.mpr ht⟩, ?_⟩
    rintro t' ⟨hmem', ht'⟩
    have hsome : v.basicType? = some t' := (hv.typedIff_basic hmem').isOf.mp ht'
    exact Option.some.inj (hsome.symm.trans ht)

/-- A member of an enumeration is a number and nothing else. Empty bytes are of one type, which
is not basic. -/
theorem basicTypes_partition_level :
    (Value.atom (.int .level 2)).Genuine ∧ ¬ (Value.atom (.int .level 2)).Untyped ∧
    (∃! t, t ∈ NamedType.basic ∧ (Value.atom (.int .level 2)).IsOf t) ∧
    (Value.atom (.bytes .constant [])).Genuine ∧ (Value.atom (.bytes .constant [])).Untyped ∧
    ∀ t, (Value.atom (.bytes .constant [])).IsOf t ↔ t = .empty := by
  have hlevel : (Value.atom (.int .level 2)).Genuine := trivial
  have htyped : ¬ (Value.atom (.int .level 2)).Untyped := by
    rintro (h | h | h | h) <;> cases h
  have hempty : (Value.atom (.bytes .constant [])).Genuine := trivial
  have huntyped : (Value.atom (.bytes .constant [])).Untyped := .inl rfl
  refine ⟨hlevel, htyped, (basicTypes_partition hlevel).2.1 htyped, hempty, huntyped, fun t => ?_⟩
  rw [((basicTypes_partition hempty).2.2.1 huntyped t).isOf, and_iff_left rfl]

end ArgSchema
