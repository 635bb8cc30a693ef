/-
# What loading a schema ends in

A text or a file gives a schema that keeps the path, or a load fault with the path. Normalizing
never fails here, because what is read has lengths at every depth (`Measured.build`).

YAML is read by any reader. Two things are assumed of it: its values have lengths at every depth,
as lists, mappings and sets of scalars have (`YamlReader.Measures`), and a load fault is no
failure of its own (`YamlReader.Foreign`). Nothing is assumed of when it has a value.

Three things stop loading in another way, and `load_outcome` says exactly when. A path with the
character zero names no file and is refused as it is. An integer of JSON may have more digits than
are read. A reader that fails in a way of its own, as it does where a scalar looks like a value of
its type and is none, tells by what it failed; this fault is no load fault, because only what is
not YAML is reported as one.

Key definitions: `YamlReader.Measures`, `YamlReader.Foreign`, `Loads`, `TextEscapes`,
`FileEscapes`, `FileHolds`.
-/
import ArgSchema.Proofs.BuiltSchemas
import ArgSchema.Proofs.Json
import ArgSchema.Proofs.Yaml.Values

namespace ArgSchema

open Value

/-! ### Building from what is read -/

/-- A measured value gives a schema with the path that it is read from. -/
theorem Measured.build {v : Value} (hv : Measured v) (path : Option String) :
    ∃ S, Schema.build v path = .ok S ∧ S.path = path := by
  have hspelled : Measured (if v.text?.isSome then ofList [v] else v) := by
    split
    · exact ⟨⟨_, rfl⟩, List.forall_mem_singleton.mpr hv⟩
    · exact hv
  obtain ⟨fields, hfields⟩ := hspelled.toFields_total
  exact ⟨⟨v, fields, path⟩, build_eq_ok.mpr ⟨rfl, rfl, hfields⟩, rfl⟩

theorem measured_noFields : Measured (ofEntries []) := measured_mapping fun _ he => by cases he

/-! ### Outcomes of loading -/

def Fault.isLoad : Fault → Bool
  | .load _ _ => true
  | _ => false

/-- A fault is a load fault with the path, or one of `Q`. -/
def LoadFaultOr (path : Option String) (Q : Fault → Prop) (fault : Fault) : Prop :=
  (∃ message, fault = .load message path) ∨ Q fault

/-- A schema with the path, a load fault with the path, or just the faults of `Q`, which are no
load faults. -/
structure Loads (path : Option String) (Q : Fault → Prop) (r : Except Fault Schema) : Prop where
  ends : Yields (fun S => S.path = path) (LoadFaultOr path Q) r
  escapes : ∀ fault, Q fault → r = .error fault ∧ fault.isLoad = false

/-- What a value is read from decides how loading ends: building adds nothing. -/
theorem Loads.of_value {path : Option String} {Q : Fault → Prop} {r : Except Fault Value}
    (h : Yields Measured (LoadFaultOr path Q) r) (hQ : ∀ fault, Q fault → r = .error fault ∧ fault.isLoad = false) :
    Loads path Q (r >>= fun v => Schema.build v path) := by
  refine ⟨.bind h fun v hv => ?_, fun fault hfault => ?_⟩
  · obtain ⟨S, hbuild, hpath⟩ := hv.build path
    rw [hbuild]
    exact .ok hpath
  · obtain ⟨hr, hload⟩ := hQ fault hfault
    exact ⟨by rw [hr, error_bind], hload⟩

theorem build_ok_iff {path : Option String} {Q : Fault → Prop} {r : Except Fault Value}
    (h : Yields Measured Q r) : (∃ S, (r >>= fun v => Schema.build v path) = .ok S) ↔ ∃ v, r = .ok v := by
  cases r with
  | ok v =>
    obtain ⟨S, hbuild, -⟩ := Measured.build h path
    exact iff_of_true ⟨S, hbuild⟩ ⟨v, rfl⟩
  | error fault => simp

/-! ### Readers of YAML -/

/-- The values that a reader finds have lengths at every depth. -/
def YamlReader.Measures (read : YamlReader) : Prop := ∀ text v, read text = .ok v → Measured v

/-- A load fault is no failure of the reader's own. -/
def YamlReader.Foreign (read : YamlReader) : Prop :=
  ∀ text fault, read text = .error (.own fault) → fault.isLoad = false

/-- What is known of the reader: it fails in its own way at scalars only. -/
theorem Yaml.reader_yields (text : String) :
    Yields Measured (fun trouble => ∀ fault, trouble = .own fault → ∃ f, fault = .scalar f ∧ Unreadable text f)
      (reader text) := by
  refine (reads_readYaml text).mapError fun trouble hstops fault hown => ?_
  cases trouble with
  | malformed => cases hown
  | scalar f =>
    cases hown
    exact ⟨f, rfl, hstops⟩

theorem Yaml.reader_measures : reader.Measures := by
  intro text v h
  have hyields := reader_yields text
  rw [h] at hyields
  exact hyields

theorem Yaml.reader_foreign : reader.Foreign := by
  intro text fault h
  have hyields := reader_yields text
  rw [h] at hyields
  obtain ⟨f, rfl, -⟩ := hyields fault rfl
  rfl

section

variable {read : YamlReader}

/-- The faults other than load faults that a YAML text ends in: the reader's own. -/
def TextEscapes (read : YamlReader) (text : String) (fault : Fault) : Prop := read text = .error (.own fault)

/-- The faults other than load faults that a file ends in. -/
inductive FileEscapes (read : YamlReader) (tree : FileTree) (p : Path) : Fault → Prop where
  | zero (hzero : '\x00' ∈ p.text.toList) : FileEscapes read tree p .zeroInPath
  | number {text : String} {count position : Nat} (htext : readText tree p = .ok text)
      (hjson : holdsJson p = true) (hnumber : Json.read text = .error ⟨.digits count, position⟩)
      (hlong : digitLimit < count) : FileEscapes read tree p (.scalar (.tooManyDigits count))
  | yaml {text : String} {fault : Fault} (htext : readText tree p = .ok text) (hjson : holdsJson p = false)
      (hescapes : TextEscapes read text fault) : FileEscapes read tree p fault

/-- The value that a file holds, read as the name of the file says. -/
inductive FileHolds (read : YamlReader) (tree : FileTree) (p : Path) (v : Value) : Prop where
  | json {text : String} (htext : readText tree p = .ok text) (hjson : holdsJson p = true)
      (hvalue : Json.read text = .ok v) : FileHolds read tree p v
  | yaml {text : String} (htext : readText tree p = .ok text) (hjson : holdsJson p = false)
      (hvalue : read text = .ok v) : FileHolds read tree p v

/-! ### YAML -/

theorem yamlValue_yields (hmeasures : read.Measures) (text : String) (path : Option String) :
    Yields Measured (LoadFaultOr path (TextEscapes read text)) (yamlValue (some read) text path) := by
  unfold yamlValue
  simp only
  split
  · exact measured_noFields
  · rename_i v _ hread
    exact hmeasures text v hread
  · exact .error (.inl ⟨_, rfl⟩)
  · rename_i fault hread
    exact .error (.inr hread)

theorem TextEscapes.yamlValue {text : String} {fault : Fault} (h : TextEscapes read text fault)
    (path : Option String) : yamlValue (some read) text path = .error fault := by
  unfold TextEscapes at h
  simp only [ArgSchema.yamlValue, h]

theorem yamlValue_ok_iff (text : String) (path : Option String) :
    (∃ v, yamlValue (some read) text path = .ok v) ↔ ∃ v, read text = .ok v := by
  unfold yamlValue
  simp only
  split
  · rename_i hread
    exact iff_of_true ⟨_, rfl⟩ ⟨_, hread⟩
  · rename_i hread
    exact iff_of_true ⟨_, rfl⟩ ⟨_, hread⟩
  · rename_i hread
    simp [hread]
  · rename_i hread
    simp [hread]

/-! ### Files -/

theorem readText_yields (read : YamlReader) (tree : FileTree) (p : Path) :
    Yields (fun _ => True) (LoadFaultOr (some p.text) (FileEscapes read tree p)) (readText tree p) := by
  unfold readText
  simp only
  split
  · rename_i hzero
    exact .error (.inr (.zero (List.contains_iff_mem.mp hzero)))
  · split
    · exact .error (.inl ⟨_, rfl⟩)
    · split
      · exact .error (.inl ⟨_, rfl⟩)
      · exact .ok trivial

theorem fileValue_yields (hmeasures : read.Measures) (tree : FileTree) (p : Path) :
    Yields Measured (LoadFaultOr (some p.text) (FileEscapes read tree p)) (fileValue (some read) tree p) := by
  have hread := readText_yields read tree p
  unfold fileValue
  cases htext : readText tree p with
  | error fault =>
    rw [htext] at hread
    exact hread
  | ok text =>
    rw [ok_bind]
    cases hjson : holdsJson p with
    | true =>
      have hvalue := Json.reads_read text
      rw [if_pos rfl]
      split
      · rename_i v hv
        rw [hv] at hvalue
        exact hvalue
      · rename_i count position hnumber
        rw [hnumber] at hvalue
        exact .error (.inr (.number htext hjson hnumber (hvalue count rfl)))
      · exact .error (.inl ⟨_, rfl⟩)
    | false =>
      rw [if_neg (by decide)]
      refine (yamlValue_yields hmeasures text (some p.text)).mono (fun _ hv => hv) fun fault hfault => ?_
      exact hfault.imp_right fun hescapes => .yaml htext hjson hescapes

theorem FileEscapes.fileValue {tree : FileTree} {p : Path} {fault : Fault} (h : FileEscapes read tree p fault) :
    fileValue (some read) tree p = .error fault := by
  unfold ArgSchema.fileValue
  cases h with
  | zero hzero =>
    have htext : readText tree p = .error .zeroInPath := by
      unfold readText
      simp only
      rw [if_pos (List.contains_iff_mem.mpr hzero)]
    rw [htext, error_bind]
  | number htext hjson hnumber => rw [htext, ok_bind, if_pos hjson, hnumber]
  | yaml htext hjson hescapes => rw [htext, ok_bind, hjson, if_neg (by decide), hescapes.yamlValue]

theorem FileEscapes.isLoad (hforeign : read.Foreign) {tree : FileTree} {p : Path} {fault : Fault}
    (h : FileEscapes read tree p fault) : fault.isLoad = false := by
  cases h with
  | zero => rfl
  | number => rfl
  | yaml _ _ hescapes => exact hforeign _ _ hescapes

theorem fileValue_ok_iff (tree : FileTree) (p : Path) :
    (∃ v, fileValue (some read) tree p = .ok v) ↔ ∃ v, FileHolds read tree p v := by
  constructor
  · rintro ⟨v, hv⟩
    obtain ⟨text, htext, hv⟩ := bind_eq_ok.mp hv
    cases hjson : holdsJson p with
    | true =>
      rw [hjson, if_pos rfl] at hv
      cases hvalue : Json.read text with
      | ok w => exact ⟨w, .json htext hjson hvalue⟩
      | error problem =>
        rw [hvalue] at hv
        split at hv
        · rename_i hok
          cases hok
        · cases hv
        · cases hv
    | false =>
      rw [hjson, if_neg (by decide)] at hv
      obtain ⟨w, hvalue⟩ := (yamlValue_ok_iff text _).mp ⟨v, hv⟩
      exact ⟨w, .yaml htext hjson hvalue⟩
  · rintro ⟨v, hv⟩
    unfold fileValue
    cases hv with
    | json htext hjson hvalue => exact ⟨v, by rw [htext, ok_bind, if_pos hjson, hvalue]⟩
    | yaml htext hjson hvalue =>
      rw [htext, ok_bind, hjson, if_neg (by decide)]
      exact (yamlValue_ok_iff _ _).mpr ⟨v, hvalue⟩

theorem result_loadFile (reader? : Option YamlReader) (tree : FileTree) (path : String) :
    (loadFile reader? tree path).result =
      (fileValue reader? tree (Path.ofText path) >>= fun v => Schema.build v (some (Path.ofText path).text)) := by
  unfold loadFile
  rw [Traced.result_bind, show (Traced.write _).result = .ok () from rfl, ok_bind, Traced.result_bind,
    Traced.result_lift]
  rfl

/-- **How loading ends**, whatever reads the YAML. A text gives a schema without a path just if it
has a value, and a load fault without one otherwise, unless the reader fails in a way of its own. A
file gives a schema with its path just if it holds a value, and a load fault with the path
otherwise, unless the path holds the character zero, an integer of JSON is too long, or the reader
fails in a way of its own. -/
theorem load_outcome (hmeasures : read.Measures) (hforeign : read.Foreign) (text : String) (tree : FileTree)
    (path : String) :
    (Loads none (TextEscapes read text) (loadText (some read) text) ∧
      ((∃ S, loadText (some read) text = .ok S) ↔ ∃ v, read text = .ok v)) ∧
    Loads (some (Path.ofText path).text) (FileEscapes read tree (Path.ofText path))
        (loadFile (some read) tree path).result ∧
      ((∃ S, (loadFile (some read) tree path).result = .ok S) ↔ ∃ v, FileHolds read tree (Path.ofText path) v) := by
  rw [result_loadFile]
  generalize Path.ofText path = p
  have htext := yamlValue_yields hmeasures text none
  have hfile := fileValue_yields hmeasures tree p
  refine ⟨⟨.of_value htext fun fault hfault => ?_, ?_⟩, .of_value hfile fun fault hfault => ?_, ?_⟩
  · exact ⟨TextEscapes.yamlValue hfault none, hforeign _ _ hfault⟩
  · exact (build_ok_iff htext).trans (yamlValue_ok_iff text none)
  · exact ⟨hfault.fileValue, hfault.isLoad hforeign⟩
  · exact (build_ok_iff hfile).trans (fileValue_ok_iff tree _)

end

/-- A directory with a file that must not be read. -/
def closedTree : FileTree := ⟨[(["work", "s.yaml"], .closedFile .permission)], ["work"]⟩

theorem readText_closedTree (text : String) : readText closedTree (Path.ofText "/work/s.yaml") ≠ .ok text := by
  intro htext
  have herror : (readText closedTree (Path.ofText "/work/s.yaml")).isOk = false := by decide +kernel
  rw [htext] at herror
  cases herror

/-- Where a date has no month, the reader fails in its own way. -/
theorem Yaml.textEscapes_month : TextEscapes reader "a: 2024-13-45" (.scalar (.calendar .month)) := by
  have hstops : (match reader "a: 2024-13-45" with
      | .error (.own (.scalar f)) => f == .calendar .month
      | _ => false) = true := by decide +kernel
  split at hstops
  · rename_i f hread
    rw [beq_iff_eq.mp hstops] at hread
    exact hread
  · cases hstops

/-- A month that is none, and a file that must not be read: the fault of the scalar, and a load
fault with the path. -/
theorem load_outcome_month :
    (Yaml.reader.Measures ∧ Yaml.reader.Foreign) ∧
    loadText (some Yaml.reader) "a: 2024-13-45" = .error (.scalar (.calendar .month)) ∧
    ∃ message, (loadFile (some Yaml.reader) closedTree "/work/s.yaml").result =
      .error (.load message (some "/work/s.yaml")) := by
  obtain ⟨⟨htext, -⟩, hfile, hschema⟩ := load_outcome Yaml.reader_measures Yaml.reader_foreign "a: 2024-13-45"
    closedTree "/work/s.yaml"
  have hpath : (Path.ofText "/work/s.yaml").text = "/work/s.yaml" := by decide +kernel
  have hends := hfile.ends
  rw [hpath] at hends
  refine ⟨⟨Yaml.reader_measures, Yaml.reader_foreign⟩, (htext.escapes _ Yaml.textEscapes_month).1, ?_⟩
  cases hresult : (loadFile (some Yaml.reader) closedTree "/work/s.yaml").result with
  | ok S =>
    obtain ⟨v, hv⟩ := hschema.mp ⟨S, hresult⟩
    cases hv with
    | json htext => exact absurd htext (readText_closedTree _)
    | yaml htext => exact absurd htext (readText_closedTree _)
  | error fault =>
    rw [hresult] at hends
    obtain ⟨message, rfl⟩ | hescapes := hends
    · exact ⟨message, rfl⟩
    · cases hescapes with
      | zero hzero => exact absurd hzero (by decide)
      | number htext => exact absurd htext (readText_closedTree _)
      | yaml htext => exact absurd htext (readText_closedTree _)

/-- A result that is neither a schema nor a load fault. -/
def escapes : Except Fault Schema → Bool
  | .ok _ => false
  | .error fault => !fault.isLoad

theorem not_loads {path : Option String} {r : Except Fault Schema} (h : escapes r = true) :
    ¬ Loads path (fun _ => False) r := by
  rintro ⟨hr, -⟩
  cases r with
  | ok S => cases h
  | error fault =>
    obtain ⟨message, rfl⟩ | hnone := hr
    · cases h
    · exact hnone

/-- A month that is none and a path that names no file end in no load fault. -/
theorem load_escapes :
    ¬ Loads none (fun _ => False) (loadText (some Yaml.reader) "a: 2024-13-45") ∧
    ¬ Loads (some (Path.ofText "a\x00.json").text) (fun _ => False)
      (loadFile (some Yaml.reader) ⟨[], []⟩ "a\x00.json").result :=
  ⟨not_loads (by decide +kernel), not_loads (by decide +kernel)⟩

end ArgSchema
