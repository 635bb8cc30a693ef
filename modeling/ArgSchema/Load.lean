/-
# Loading schemas

A schema is read from YAML text or from a file, which holds JSON if its name says so
and YAML otherwise. A text or a file that cannot be read gives a load fault with the
path; the path that is loaded is written to the trace.

YAML is read by a reader that is no part of this, and that may not be there at all. It finds
the value of a text, or it says why the text is not YAML, or it fails in a way of its own.

Key definitions:
* `YamlReader`: a reader of YAML texts.
* `loadText`: the schema of a YAML text.
* `loadFile`: the schema of a file.
-/
import ArgSchema.Schema
import ArgSchema.File
import ArgSchema.Json.Reader

namespace ArgSchema

/-- Why a reader of YAML has no value for a text: the text is not YAML, for a reason that it
words, or it fails in a way of its own. -/
inductive YamlTrouble where
  | notYaml (reason : String)
  | own (fault : Fault)

/-- A reader of YAML: the value of a text, or why there is none. -/
abbrev YamlReader := String → Except YamlTrouble Value

/-- The value of a YAML text, where nothing at all counts as no fields. -/
def yamlValue (reader? : Option YamlReader) (text : String) (path : Option String) : Except Fault Value :=
  match reader? with
  | none => .error .noYaml
  | some read => match read text with
    | .ok (.atom .null) => .ok (.ofEntries [])
    | .ok v => .ok v
    | .error (.notYaml reason) =>
      let whereabouts := match path with
        | some p => if p = "" then "" else " in " ++ p
        | none => ""
      .error (.load ("Invalid YAML" ++ whereabouts ++ ": " ++ reason) path)
    | .error (.own fault) => .error fault

/-- The schema of a YAML text. -/
def loadText (reader? : Option YamlReader) (text : String) : Except Fault Schema := do
  Schema.build (← yamlValue reader? text none) none

/-- The text of a file: strict UTF-8 with one kind of line end. -/
def readText (tree : FileTree) (p : Path) : Except Fault String :=
  let unreadable (reason : String) : Fault :=
    .load ("Cannot read schema file " ++ p.text ++ ": " ++ reason) (some p.text)
  if p.text.toList.contains '\x00' then .error .zeroInPath
  else match tree.read p with
    | .error e => .error (unreadable (e.message p.text))
    | .ok bytes => match Utf8.decode bytes with
      | .error e => .error (unreadable e.message)
      | .ok text => .ok (String.ofList (unifyLineEnds text.toList))

/-- Whether a file holds JSON: its extension says so, in small or capital letters. -/
def holdsJson (p : Path) : Bool :=
  String.ofList (p.extension.toList.map Char.toLower) == ".json"

/-- The value that a file holds. -/
def fileValue (reader? : Option YamlReader) (tree : FileTree) (p : Path) : Except Fault Value := do
  let text ← readText tree p
  if holdsJson p then
    match Json.read text with
    | .ok v => .ok v
    | .error ⟨.digits count, _⟩ => .error (.scalar (.tooManyDigits count))
    | .error e => .error (.load ("Invalid JSON in " ++ p.text ++ ": " ++ e.message text) (some p.text))
  else yamlValue reader? text (some p.text)

/-- The schema of a file. -/
def loadFile (reader? : Option YamlReader) (tree : FileTree) (path : String) : Traced Schema := do
  let p := Path.ofText path
  Traced.write (.loading p.text)
  let v ← Traced.lift (fileValue reader? tree p)
  Traced.lift (Schema.build v (some p.text))

end ArgSchema
