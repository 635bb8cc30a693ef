/-
# Descriptions tell what is expected

The description of a constraint is one text: a type name, or nested fields between braces, each
behind its key. From the text the constraint can be read back, up to which fields are optional, if
the names and keys in it are words, free of the marks that stand between them
(`Shape.chars_unique`). So two constraints are described alike just if they have the same shape:
the same keys in the same order, and the same type names, at every depth
(`SpecIn.describe_same_iff`).

A description ends where a comma, a brace or nothing follows. So the induction goes over two
shapes at once, each written down with what follows it.

Key definitions: `Word`, `Shape`, `Value.shape?`, `Value.Worded`.
-/
import ArgSchema.Proofs.EqualSpecs

namespace ArgSchema

open Value

/-- What stands between the names in a description. -/
def isMark (c : Char) : Bool := c == '\x7b' || c == '\x7d' || c == ':' || c == ','

/-- A text without marks. -/
structure Word where
  text : String
  clean : text.toList.any isMark = false

def Word.ofText? (s : String) : Option Word :=
  if h : s.toList.any isMark = false then some ⟨s, h⟩ else none

/-- What a constraint expects, whatever is optional: a type, or fields in their order. -/
inductive Shape where
  | name (w : Word)
  | fields (entries : List (Word × Shape))

namespace Value

/-- The text of a value, if it is a word. -/
def word? (v : Value) : Option Word := v.text?.bind Word.ofText?

mutual
/-- The shape of a constraint that is made of type names and nested fields, all of them words. -/
def shape? : Value → Option Shape
  | .typeName name => do .some (.name (← name.word?))
  | .nested fields => do .some (.fields (← shapes? fields))
  | _ => none

def shapes? : List (Value × Value) → Option (List (Word × Shape))
  | [] => some []
  | (k, .fieldSpec c _) :: rest => do
    let w ← k.word?
    let shape ← c.shape?
    .some ((w, shape) :: (← shapes? rest))
  | _ => none
end

end Value

/-! ### Shapes are read back -/

/-- What stands behind an entry; nothing does behind the last one. -/
def separator (last : Bool) : List Char := if last then [] else [',', ' ']

mutual
/-- How a shape is described. -/
def Shape.chars : Shape → List Char
  | .name w => w.text.toList
  | .fields entries => '\x7b' :: entryChars entries

/-- Entries, with the brace behind them. -/
def entryChars : List (Word × Shape) → List Char
  | [] => ['\x7d']
  | (k, shape) :: rest => k.text.toList ++ ':' :: ' ' :: (shape.chars ++ (separator rest.isEmpty ++ entryChars rest))
end

/-- What may follow a description. -/
def Follows (r : List Char) : Prop := ∀ c ∈ r.head?, c = ',' ∨ c = '\x7d'

theorem follows_nil : Follows [] := fun _ hc => nomatch hc

theorem Follows.isMark {r : List Char} (hr : Follows r) : ∀ c ∈ r.head?, isMark c = true := by
  intro c hc
  rcases hr c hc with rfl | rfl <;> rfl

theorem follows_entries (entries : List (Word × Shape)) (r : List Char) :
    Follows (separator entries.isEmpty ++ entryChars entries ++ r) := by
  intro c hc
  cases entries with
  | nil => exact .inr (Option.some.inj hc).symm
  | cons e rest => exact .inl (Option.some.inj hc).symm

/-- Where the marks begin, the first part ends. -/
theorem append_unique {p : Char → Bool} : ∀ {cs cs' r r' : List Char}, cs.any p = false → cs'.any p = false →
    (∀ c ∈ r.head?, p c = true) → (∀ c ∈ r'.head?, p c = true) → cs ++ r = cs' ++ r' → cs = cs' ∧ r = r'
  | [], [], _, _, _, _, _, _, he => ⟨rfl, he⟩
  | [], c :: cs', r, r', _, hcs', hr, _, he => by
    have hmark : p c = true := hr c (by rw [List.nil_append, List.cons_append] at he; rw [he]; rfl)
    simp [hmark] at hcs'
  | c :: cs, [], r, r', hcs, _, _, hr', he => by
    have hmark : p c = true := hr' c (by rw [List.nil_append, List.cons_append] at he; rw [← he]; rfl)
    simp [hmark] at hcs
  | c :: cs, c' :: cs', r, r', hcs, hcs', hr, hr', he => by
    rw [List.any_cons, Bool.or_eq_false_iff] at hcs hcs'
    rw [List.cons_append, List.cons_append] at he
    obtain ⟨rfl, htails⟩ := List.cons.inj he
    obtain ⟨rfl, hrest⟩ := append_unique hcs.2 hcs'.2 hr hr' htails
    exact ⟨rfl, hrest⟩

theorem Word.append_unique {w w' : Word} {r r' : List Char} (hr : ∀ c ∈ r.head?, isMark c = true)
    (hr' : ∀ c ∈ r'.head?, isMark c = true) (he : w.text.toList ++ r = w'.text.toList ++ r') : w = w' ∧ r = r' := by
  obtain ⟨htext, hrest⟩ := ArgSchema.append_unique w.clean w'.clean hr hr' he
  refine ⟨?_, hrest⟩
  cases w
  cases w'
  simpa using String.toList_inj.mp htext

/-- No word begins with a mark, unless it is empty. -/
theorem Word.append_ne_cons {w : Word} {c : Char} {r r' : List Char} (hc : isMark c = true)
    (hr : ∀ c' ∈ r.head?, c' ≠ c) : w.text.toList ++ r ≠ c :: r' := by
  intro he
  cases hw : w.text.toList with
  | nil =>
    rw [hw, List.nil_append] at he
    exact hr c (by rw [he]; rfl) rfl
  | cons c' cs =>
    rw [hw, List.cons_append] at he
    have hclean := w.clean
    rw [hw, (List.cons.inj he).1, List.any_cons, hc] at hclean
    cases hclean

theorem entryChars_cons (k : Word) (shape : Shape) (rest : List (Word × Shape)) (r : List Char) :
    entryChars ((k, shape) :: rest) ++ r =
      k.text.toList ++ ':' :: ' ' :: (shape.chars ++ (separator rest.isEmpty ++ entryChars rest ++ r)) := by
  simp [entryChars]

/-- Entries do not begin with the brace behind them. -/
theorem entryChars_cons_ne {k : Word} {shape : Shape} {rest : List (Word × Shape)} {r r' : List Char} :
    entryChars ((k, shape) :: rest) ++ r ≠ '\x7d' :: r' := by
  rw [entryChars_cons]
  refine Word.append_ne_cons rfl fun c hc => ?_
  obtain rfl := Option.some.inj hc
  decide

mutual
/-- A description tells the shape and where it ends. -/
theorem Shape.chars_unique : ∀ {a b : Shape} {r r' : List Char}, Follows r → Follows r' →
    a.chars ++ r = b.chars ++ r' → a = b ∧ r = r'
  | .name w, .name w', r, r', hr, hr', he => by
    obtain ⟨rfl, hrest⟩ := Word.append_unique hr.isMark hr'.isMark he
    exact ⟨rfl, hrest⟩
  | .name w, .fields entries', r, r', hr, _, he => by
    refine absurd he (Word.append_ne_cons rfl fun c hc => ?_)
    rcases hr c hc with rfl | rfl <;> decide
  | .fields entries, .name w', r, r', _, hr', he => by
    refine absurd he.symm (Word.append_ne_cons rfl fun c hc => ?_)
    rcases hr' c hc with rfl | rfl <;> decide
  | .fields entries, .fields entries', r, r', _, _, he => by
    obtain ⟨rfl, hrest⟩ := entryChars_unique (List.cons.inj he).2
    exact ⟨rfl, hrest⟩

theorem entryChars_unique : ∀ {entries entries' : List (Word × Shape)} {r r' : List Char},
    entryChars entries ++ r = entryChars entries' ++ r' → entries = entries' ∧ r = r'
  | [], [], r, r', he => ⟨rfl, (List.cons.inj he).2⟩
  | [], (k', shape') :: rest', r, r', he => absurd he.symm entryChars_cons_ne
  | (k, shape) :: rest, [], r, r', he => absurd he entryChars_cons_ne
  | (k, shape) :: rest, (k', shape') :: rest', r, r', he => by
    rw [entryChars_cons, entryChars_cons] at he
    have hcolon : ∀ {r : List Char}, ∀ c ∈ (':' :: r).head?, isMark c = true := by simp [isMark]
    obtain ⟨rfl, hentry⟩ := Word.append_unique hcolon hcolon he
    have hshapes := (List.cons.inj (List.cons.inj hentry).2).2
    obtain ⟨rfl, htails⟩ := Shape.chars_unique (follows_entries rest r) (follows_entries rest' r') hshapes
    -- the separator tells whether there is another entry
    cases rest with
    | nil =>
      cases rest' with
      | nil => exact ⟨rfl, (List.cons.inj htails).2⟩
      | cons e' rest' => cases htails
    | cons e rest =>
      cases rest' with
      | nil => cases htails
      | cons e' rest' =>
        obtain ⟨hrest, hr⟩ := entryChars_unique (List.cons.inj (List.cons.inj htails).2).2
        rw [hrest]
        exact ⟨rfl, hr⟩
end

/-! ### Descriptions of shapes -/

theorem word?_eq_some {v : Value} {w : Word} (h : v.word? = some w) : v.text? = some w.text := by
  obtain ⟨s, hs, hw⟩ := Option.bind_eq_some_iff.mp h
  obtain ⟨hclean, hw⟩ := Option.dite_none_right_eq_some.mp hw
  obtain rfl := Option.some.inj hw
  exact hs

theorem isMark_of_alphanum {c : Char} (h : (c.isAlphanum || c == '_') = true) : isMark c = false := by
  rw [Bool.eq_false_iff]
  intro hmark
  simp only [isMark, Bool.or_eq_true, beq_iff_eq, or_assoc] at hmark
  rcases hmark with rfl | rfl | rfl | rfl <;> cases h

/-- A text of letters, digits and underscores is a word. -/
theorem word?_of_alphanum {v : Value} {s : String} (h : v.text? = some s)
    (hs : s.toList.all (fun c => c.isAlphanum || c == '_') = true) : ∃ w, v.word? = some w := by
  have hclean : s.toList.any isMark = false :=
    List.any_eq_false.mpr fun c hc => Bool.eq_false_iff.mp (isMark_of_alphanum (List.all_eq_true.mp hs c hc))
  exact ⟨⟨s, hclean⟩, by rw [word?, h]; exact dif_pos hclean⟩

theorem plain_of_text? {v : Value} {s : String} (h : v.text? = some s) : v.plain = s := by
  obtain ⟨kind, rfl⟩ := text?_eq_some h
  rw [plain, Atom.plain]

/-- Entries that have a shape are specs, under keys that are words. -/
theorem shapes?_cons {k v : Value} {rest : Entries} {entries : List (Word × Shape)}
    (h : shapes? ((k, v) :: rest) = some entries) :
    ∃ c optional w shape tail, v = .fieldSpec c optional ∧ k.word? = some w ∧ c.shape? = some shape ∧
      shapes? rest = some tail ∧ entries = (w, shape) :: tail := by
  cases v with
  | fieldSpec c optional =>
    rw [shapes?] at h
    obtain ⟨w, hw, h⟩ := Option.bind_eq_some_iff.mp h
    obtain ⟨shape, hshape, h⟩ := Option.bind_eq_some_iff.mp h
    obtain ⟨tail, htail, h⟩ := Option.bind_eq_some_iff.mp h
    exact ⟨c, optional, w, shape, tail, rfl, hw, hshape, htail, (Option.some.inj h).symm⟩
  | _ => simp [shapes?] at h

theorem toList_joinWith_cons (c : String) : ∀ cs : List String,
    (joinWith ", " (c :: cs)).toList = c.toList ++ (separator cs.isEmpty ++ (joinWith ", " cs).toList)
  | [] => by simp [joinWith, separator]
  | d :: rest => by
    rw [joinWith, String.intercalate_cons_cons, String.toList_append, String.toList_append, List.append_assoc]
    rfl

mutual
/-- A constraint that has a shape is described by it. -/
theorem describe_of_shape : ∀ {c : Value} {shape : Shape}, c.shape? = some shape →
    ∃ d, c.describe = .ok d ∧ d.text? = some (String.ofList shape.chars)
  | .typeName name, shape, h => by
    rw [shape?] at h
    obtain ⟨w, hw, h⟩ := Option.bind_eq_some_iff.mp h
    obtain rfl := Option.some.inj h
    exact ⟨name, by rw [describe], by rw [word?_eq_some hw, Shape.chars, String.ofList_toList]⟩
  | .nested fields, shape, h => by
    rw [shape?] at h
    obtain ⟨entries, hentries, h⟩ := Option.bind_eq_some_iff.mp h
    obtain rfl := Option.some.inj h
    obtain ⟨texts, htexts, -, hjoin⟩ := describeEntries_of_shapes hentries
    have hchars : (bracesText texts).toList = (Shape.fields entries).chars := by
      rw [bracesText, String.toList_append, String.toList_append, Shape.chars, ← hjoin]
      simp
    refine ⟨ofText (bracesText texts), by rw [describe, htexts, ok_bind], ?_⟩
    rw [← hchars, String.ofList_toList]
    rfl
  | .atom _, _, h | .collection .., _, h | .mapping .., _, h | .exception .., _, h | .instanceOf _, _, h
  | .unsatisfiable _, _, h | .fieldSpec .., _, h | .schema .., _, h => by simp [shape?] at h

/-- The descriptions of entries, joined. -/
theorem describeEntries_of_shapes : ∀ {fields : List (Value × Value)} {entries : List (Word × Shape)},
    shapes? fields = some entries → ∃ texts, describeEntries fields = .ok texts ∧
      texts.isEmpty = entries.isEmpty ∧ (joinWith ", " texts).toList ++ ['\x7d'] = entryChars entries
  | [], entries, h => by
    rw [shapes?] at h
    obtain rfl := Option.some.inj h
    exact ⟨[], by rw [describeEntries], rfl, rfl⟩
  | (k, v) :: rest, entries, h => by
    obtain ⟨c, optional, w, shape, tail, rfl, hw, hshape, htail, rfl⟩ := shapes?_cons h
    obtain ⟨d, hd, htext⟩ := describe_of_shape hshape
    obtain ⟨texts, htexts, hempty, hjoin⟩ := describeEntries_of_shapes htail
    refine ⟨(k.plain ++ ": " ++ d.plain) :: texts, by rw [describeEntries, hd, ok_bind, htexts, ok_bind], rfl, ?_⟩
    rw [toList_joinWith_cons, plain_of_text? (word?_eq_some hw), plain_of_text? htext, entryChars, hempty, ← hjoin]
    simp
end

/-- The descriptions of two shapes are the same text just if the shapes are the same. -/
theorem ofList_chars_inj {a b : Shape} : String.ofList a.chars = String.ofList b.chars ↔ a = b := by
  refine ⟨fun he => ?_, fun he => he ▸ rfl⟩
  have hchars : a.chars ++ [] = b.chars ++ [] := by simpa using String.ofList_inj.mp he
  exact (Shape.chars_unique follows_nil follows_nil hchars).1

/-! ### Flags -/

namespace Value

mutual
/-- A constraint with no field optional, at any depth. -/
def unflagged : Value → Value
  | .nested fields => .nested (unflaggedEntries fields)
  | v => v

def unflaggedEntries : List (Value × Value) → List (Value × Value)
  | [] => []
  | (k, .fieldSpec c _) :: rest => (k, .fieldSpec c.unflagged (ofBool false)) :: unflaggedEntries rest
  | (k, v) :: rest => (k, v) :: unflaggedEntries rest
end

end Value

mutual
/-- Whether a field is optional does not show in a description. -/
theorem describe_unflagged : ∀ c : Value, c.unflagged.describe = c.describe
  | .nested fields => by rw [unflagged, describe, describe, describeEntries_unflagged fields]
  | .atom _ | .collection .. | .mapping .. | .exception .. | .typeName _ | .instanceOf _ | .unsatisfiable _
  | .fieldSpec .. | .schema .. => by simp [unflagged]

theorem describeEntries_unflagged : ∀ fields : List (Value × Value),
    describeEntries (unflaggedEntries fields) = describeEntries fields
  | [] => by rw [unflaggedEntries]
  | (k, v) :: rest => by
    cases v with
    | fieldSpec c optional =>
      rw [unflaggedEntries, describeEntries, describeEntries, describe_unflagged c, describeEntries_unflagged rest]
    | _ => simp [unflaggedEntries, describeEntries]
end

/-! ### Worded schemas -/

/-- A type that is made of type names and nested fields, where the names and the keys are words. -/
inductive Value.Worded : Value → Prop where
  | name {t : Value} {w : Word} (h : t.word? = some w) : Worded t
  | nested {t : Value} {inner : Entries} (h : t.nestedEntries? = some inner)
      (hkeys : ∀ e ∈ inner, ∃ w, e.1.word? = some w) (htypes : ∀ e ∈ inner, Worded e.2.askedType) : Worded t

/-- A field whose constraint has a shape. -/
def Shaped (spec : Value) : Prop := ∃ c optional shape, spec = .fieldSpec c optional ∧ c.shape? = some shape

theorem shapes?_isSome : ∀ {fields : Entries}, (∀ f ∈ fields, ∃ w, f.1.word? = some w) → (∀ f ∈ fields, Shaped f.2) →
    ∃ entries, shapes? fields = some entries
  | [], _, _ => ⟨[], by rw [shapes?]⟩
  | (k, v) :: rest, hkeys, hspecs => by
    obtain ⟨⟨w, hw⟩, hkeysRest⟩ := List.forall_mem_cons.mp hkeys
    obtain ⟨⟨c, optional, shape, hv, hshape⟩, hspecsRest⟩ := List.forall_mem_cons.mp hspecs
    obtain ⟨tail, htail⟩ := shapes?_isSome hkeysRest hspecsRest
    obtain rfl : v = .fieldSpec c optional := hv
    exact ⟨(w, shape) :: tail, by simp [shapes?, hw, hshape, htail]⟩

theorem shaped_of_mem : ∀ {fields : Entries} {entries : List (Word × Shape)}, shapes? fields = some entries →
    ∀ f ∈ fields, Shaped f.2
  | [], _, _, _, hf => nomatch hf
  | (k, v) :: rest, entries, h, f, hf => by
    obtain ⟨c, optional, w, shape, tail, rfl, -, hshape, htail, -⟩ := shapes?_cons h
    rcases List.mem_cons.mp hf with rfl | hf
    · exact ⟨c, optional, shape, rfl, hshape⟩
    · exact shaped_of_mem htail f hf

/-- What a type normalizes to has a shape. -/
def ShapedType (t : Value) : Prop := ∀ c, t.toConstraint = .ok c → ∃ shape, c.shape? = some shape

theorem ShapedType.field {x spec : Value} (hx : Plain x) (h : ShapedType x.askedType) (hspec : x.toField = .ok spec) :
    Shaped spec := by
  obtain ⟨c, b, hc, -, rfl⟩ := (toField_eq_ok hx.not_fieldSpec).mp hspec
  obtain ⟨shape, hshape⟩ := h c hc
  exact ⟨c, ofBool b, shape, rfl, hshape⟩

theorem Value.Worded.shapedType {t : Value} (h : t.Worded) (ht : Plain t) : ShapedType t := by
  induction h with
  | @name t w hw =>
    intro c hc
    have htext := word?_eq_some hw
    rw [toConstraint_leaf (text?_some htext).2, leafConstraint_name htext] at hc
    obtain rfl := Except.ok.inj hc
    exact ⟨.name w, by simp [shape?, hw]⟩
  | @nested t inner hinner hkeys htypes ih =>
    intro c hc
    rw [ht.toConstraint_nested hinner] at hc
    obtain ⟨fields, hfields, hc⟩ := bind_eq_ok.mp hc
    obtain rfl := Except.ok.inj hc
    obtain ⟨entries, hentries⟩ : ∃ entries, shapes? fields = some entries := by
      refine shapes?_isSome (fun f hf => ?_) fun f hf => ?_
      · obtain ⟨e, he, hkey, -⟩ := mem_normalizeEntries hfields f hf
        exact hkey ▸ hkeys e he
      · obtain ⟨e, he, -, hspec⟩ := mem_normalizeEntries hfields f hf
        have hx : Plain e.2 := ht.declared e (nestedEntries?_eq_declared hinner ▸ he)
        exact (ih e he hx.askedType).field hx hspec
    exact ⟨.fields entries, by simp [shape?, hentries]⟩

/-- Every spec of a worded schema has a shape, at any depth. -/
theorem SpecIn.shaped {s spec : Value} (hs : Plain s) (hw : ∀ e ∈ s.declared, e.2.askedType.Worded)
    (h : SpecIn s spec) : Shaped spec := by
  induction h with
  | field h hf =>
    rw [hs.toFields_eq] at h
    obtain ⟨e, he, -, hspec⟩ := mem_normalizeEntries h _ hf
    have hx : Plain e.2 := hs.declared e he
    exact ((hw e he).shapedType hx.askedType).field hx hspec
  | nested _ hf ih =>
    obtain ⟨c, optional, shape, hc, hshape⟩ := ih
    obtain ⟨rfl, -⟩ := Value.fieldSpec.inj hc
    rw [shape?] at hshape
    obtain ⟨entries, hentries, -⟩ := Option.bind_eq_some_iff.mp hshape
    exact shaped_of_mem hentries _ hf

/-- **Two constraints are described alike just if they have the same shape**: the same keys in
the same order and the same type names, at every depth. What is optional does not show. The
constraints are those of worded schemas of plain data. -/
theorem SpecIn.describe_same_iff {s s' c c' optional optional' : Value} (hs : Plain s) (hs' : Plain s')
    (hw : ∀ e ∈ s.declared, e.2.askedType.Worded) (hw' : ∀ e ∈ s'.declared, e.2.askedType.Worded)
    (hc : SpecIn s (.fieldSpec c optional)) (hc' : SpecIn s' (.fieldSpec c' optional')) :
    ∃ d d' shape shape', c.describe = .ok d ∧ c'.describe = .ok d' ∧
      c.shape? = some shape ∧ c'.shape? = some shape' ∧ (d.same d' = true ↔ shape = shape') ∧
      ∀ t : Value, t.unflagged = c.unflagged → t.describe = .ok d := by
  obtain ⟨_, _, shape, hspec, hshape⟩ := hc.shaped hs hw
  obtain ⟨rfl, -⟩ := Value.fieldSpec.inj hspec
  obtain ⟨_, _, shape', hspec', hshape'⟩ := hc'.shaped hs' hw'
  obtain ⟨rfl, -⟩ := Value.fieldSpec.inj hspec'
  obtain ⟨d, hd, htext⟩ := describe_of_shape hshape
  obtain ⟨d', hd', htext'⟩ := describe_of_shape hshape'
  refine ⟨d, d', shape, shape', hd, hd', hshape, hshape', (same_text_iff htext htext').trans ofList_chars_inj, ?_⟩
  intro t ht
  rw [← describe_unflagged t, ht, describe_unflagged c, hd]

/-- A schema for a user, whose age is of the type `age`. -/
def userSchema (age : Value) : Value := ofEntries [(ofText "user", ofEntries [(ofText "age", age)])]

/-- What is expected of a user. -/
def userConstraint (optional : Bool) : Value :=
  .nested [(ofText "age", .fieldSpec (.typeName (ofText "natural")) (ofBool optional))]

theorem userSchema_plain {age : Value} (h : Plain age) : Plain (userSchema age) := by
  refine plain_named ["user"] rfl (by decide) (List.forall_mem_singleton.mpr ?_)
  exact plain_named ["age"] rfl (by decide) (List.forall_mem_singleton.mpr h)

theorem userSchema_worded {age : Value} (h : age.askedType = ofText "natural") :
    ∀ e ∈ (userSchema age).declared, e.2.askedType.Worded := by
  obtain ⟨k, hk⟩ := word?_of_alphanum (v := ofText "age") rfl (by decide)
  obtain ⟨n, hn⟩ := word?_of_alphanum (v := ofText "natural") rfl (by decide)
  have hinner : (ofEntries [(ofText "age", age)]).nestedEntries? = some [(ofText "age", age)] := rfl
  refine List.forall_mem_singleton.mpr (.nested hinner ?_ ?_)
  · exact List.forall_mem_singleton.mpr ⟨k, hk⟩
  · exact List.forall_mem_singleton.mpr (.name (h ▸ hn))

/-- A user is described in the same way whether the age is optional or not. -/
theorem describe_same_optional :
    SpecIn (userSchema (ofText "natural")) (.fieldSpec (userConstraint false) (ofBool false)) ∧
    SpecIn (userSchema (ofEntries [(ofText "isa", ofText "natural"), (ofText "optional", ofBool true)]))
      (.fieldSpec (userConstraint true) (ofBool false)) ∧
    ∃ d d', (userConstraint false).describe = .ok d ∧ (userConstraint true).describe = .ok d' ∧ d.same d' = true := by
  have hfull : Plain (ofEntries [(ofText "isa", ofText "natural"), (ofText "optional", ofBool true)]) := by
    refine plain_named ["isa", "optional"] rfl (by decide) fun e he => ?_
    rcases List.mem_pair.mp he with rfl | rfl <;> exact .atom _
  have hc : SpecIn (userSchema (ofText "natural")) (.fieldSpec (userConstraint false) (ofBool false)) :=
    .field (f := (ofText "user", _)) rfl (List.mem_singleton_self _)
  have hc' : SpecIn (userSchema (ofEntries [(ofText "isa", ofText "natural"), (ofText "optional", ofBool true)]))
      (.fieldSpec (userConstraint true) (ofBool false)) :=
    .field (f := (ofText "user", _)) rfl (List.mem_singleton_self _)
  obtain ⟨d, d', shape, shape', hd, hd', hshape, hshape', hsame, -⟩ :=
    SpecIn.describe_same_iff (userSchema_plain (.atom _)) (userSchema_plain hfull) (userSchema_worded rfl)
      (userSchema_worded rfl) hc hc'
  have hshapes : (userConstraint true).shape? = (userConstraint false).shape? := by
    simp [userConstraint, shape?, shapes?]
  rw [hshapes, hshape] at hshape'
  exact ⟨hc, hc', d, d', hd, hd', hsame.mpr (Option.some.inj hshape')⟩

end ArgSchema
