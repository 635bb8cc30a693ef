/-
# A reader of YAML

The value of a text is the value of its only document. What stops at a scalar is a failure of
the reader's own: the text is YAML.

Key definitions:
* `readYaml`: the value of a text.
* `reader`: the reader that schemas are loaded with.
-/
import ArgSchema.Load
import ArgSchema.Yaml.Document

namespace ArgSchema
namespace Yaml

/-- The value of a text; a text without a document is null. -/
def readYaml (text : String) : Except Trouble Value := do
  match ← Document.ofTokens (← Token.ofText text) with
  | none => .ok .null
  | some d => d.value

/-- Why a text is malformed is not worded here. -/
def Trouble.toYamlTrouble : Trouble → YamlTrouble
  | .malformed => .notYaml ""
  | .scalar f => .own (.scalar f)

/-- The reader that schemas are loaded with. -/
def reader : YamlReader := fun text => (readYaml text).mapError Trouble.toYamlTrouble

end Yaml
end ArgSchema
