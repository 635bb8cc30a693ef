/-
# Paths and files

A path is a list of names. Files and directories are found by walking along the names, from
the current directory or, if the path is absolute, from the top; what stops the walk is
reported.

Key definitions:
* `Path.ofText`, `Path.text`: a path without empty and single-dot names.
* `Path.extension`: the part of the last name from its last dot on.
* `FileTree.read`: the bytes of the file at a path.
-/
import ArgSchema.Text.Utf8

namespace ArgSchema

/-- A path: its names, and what is written before them if it starts at the top. -/
structure Path where
  root : String
  names : List String
  deriving DecidableEq, Repr

/-- The parts of a list between separators. -/
def splitOnChar (sep : Char) : List Char → List (List Char)
  | [] => [[]]
  | c :: rest =>
    match splitOnChar sep rest with
    | [] => [[c]]
    | part :: parts => if c = sep then [] :: part :: parts else (c :: part) :: parts

namespace Path

/-- How a path starts that a text writes. Just two slashes are kept, more of them are one. -/
def rootOf (cs : List Char) : String :=
  match (cs.takeWhile (· == '/')).length with
  | 0 => ""
  | 2 => "//"
  | _ => "/"

/-- The path that a text writes: empty names and single dots say nothing. -/
def ofText (s : String) : Path :=
  let names := (splitOnChar '/' s.toList).map String.ofList
  ⟨rootOf s.toList, names.filter fun n => n != "" && n != "."⟩

/-- Whether a path starts at the top. -/
def isAbsolute (p : Path) : Bool := p.root != ""

/-- The text of a path; the current directory is a dot. -/
def text (p : Path) : String :=
  let body := p.root ++ String.intercalate "/" p.names
  if body = "" then "." else body

/-- The part of the last name from its last dot on, if that dot is neither its first nor
its last character. -/
def extension (p : Path) : String :=
  let cs := ((p.names.getLast?).getD "").toList
  let tail := (cs.reverse.takeWhile (· != '.')).reverse
  if tail.length + 1 < cs.length ∧ tail ≠ [] then String.ofList ('.' :: tail) else ""

end Path

/-- Why a file cannot be read: what the walk to it finds, or what the system says. -/
inductive FileProblem where
  | missing | permission | notADirectory | isADirectory | nameTooLong
  | other (code : Nat) (reason : String)
  deriving DecidableEq, Repr

namespace FileProblem

def code : FileProblem → Nat
  | .missing => 2
  | .permission => 13
  | .notADirectory => 20
  | .isADirectory => 21
  | .nameTooLong => 36
  | .other code _ => code

def reason : FileProblem → String
  | .missing => "No such file or directory"
  | .permission => "Permission denied"
  | .notADirectory => "Not a directory"
  | .isADirectory => "Is a directory"
  | .nameTooLong => "File name too long"
  | .other _ reason => reason

/-- The wording of a problem with the file at `path`. -/
def message (p : FileProblem) (path : String) : String :=
  "[Errno " ++ toString p.code ++ "] " ++ p.reason ++ ": " ++ quoteText path

end FileProblem

/-- What is found under a name. -/
inductive FileEntry where
  | file (bytes : List Nat)
  | directory
  /-- A file that is there and cannot be read, for want of permission or as its medium fails. -/
  | closedFile (problem : FileProblem)
  /-- A directory, or a link, that cannot be entered. -/
  | closedDirectory (problem : FileProblem)
  deriving DecidableEq, Repr

/-- Files and directories by their names from the top on, and the current directory. The
directories above an entry, and those above the current one, are there as well. -/
structure FileTree where
  entries : List (List String × FileEntry)
  here : List String
  deriving Repr

namespace FileTree

/-- The most bytes that a name and a path may have. -/
def longestName : Nat := 255
def longestPath : Nat := 4095

/-- What is found under names: the last entry written there, or a directory above one. -/
def entry? (tree : FileTree) (names : List String) : Option FileEntry :=
  match tree.entries.reverse.find? fun e => e.1 == names with
  | some e => some e.2
  | none =>
    if names.isPrefixOf tree.here || tree.entries.any fun e => names.isPrefixOf e.1 then some .directory
    else none

/-- Walks along names from the directory `place`; there is nothing above the top. -/
def walk (tree : FileTree) (place : List String) : List String → Except FileProblem (List Nat)
  | [] => .error .isADirectory
  | name :: rest =>
    if name = ".." then walk tree place.dropLast rest
    else if longestName < name.utf8ByteSize then .error .nameTooLong
    else match tree.entry? (place ++ [name]) with
      | none => .error .missing
      | some .directory => walk tree (place ++ [name]) rest
      | some (.file bytes) => if rest.isEmpty then .ok bytes else .error .notADirectory
      | some (.closedFile problem) => .error (if rest.isEmpty then problem else .notADirectory)
      | some (.closedDirectory problem) => .error problem

/-- The bytes of the file at a path. -/
def read (tree : FileTree) (p : Path) : Except FileProblem (List Nat) :=
  if longestPath < p.text.utf8ByteSize then .error .nameTooLong
  else walk tree (if p.isAbsolute then [] else tree.here) p.names

end FileTree
end ArgSchema
