/-
# Scalars of a YAML text

The three ways to write a scalar: plain, between quotes, and as a block of lines.
Line ends inside a scalar are folded: a single one counts as a blank, further ones
stay, and only a literal block keeps them all.

Key definitions:
* `Cursor.plainScalar`: a plain scalar.
* `Cursor.quotedScalar`: a scalar between quotes.
* `Cursor.blockScalar`: a literal or folded block.
-/
import ArgSchema.Yaml.Cursor
import ArgSchema.Json.Reader

namespace ArgSchema
namespace Yaml
namespace Cursor

/-- Line ends between two parts of a scalar: the first one counts as a blank unless
others follow or it is of the kind that stands for itself. -/
def foldBreaks (first : Char) (others : List Char) : List Char :=
  if first ≠ '\n' then first :: others
  else if others.isEmpty then [' ']
  else others

/-! ### Plain scalars -/

/-- Whether a plain scalar ends before the character `n` places on. -/
def endsPlain (inFlow : Bool) (c : Cursor) (n : Nat) : Bool :=
  match c.peek n with
  | none => true
  | some ch =>
    isGap (some ch)
      || (ch == ':' && (isGap (c.peek (n + 1))
        || (inFlow && (c.peek (n + 1)).any fun d => ",[]\x7b\x7d".toList.contains d)))
      || (inFlow && ",?[]\x7b\x7d".toList.contains ch)

/-- The length of the run of characters that belong to a plain scalar. -/
def plainRun (inFlow : Bool) (c : Cursor) : (bound n : Nat) → Nat
  | 0, n => n
  | bound + 1, n => if endsPlain inFlow c n then n else plainRun inFlow c bound (n + 1)

/-- Line ends and blanks; nothing if a document mark follows a line end. -/
def plainBreaks : (bound : Nat) → (found : List Char) → Cursor → Option (List Char) × Cursor
  | 0, found, c => (some found.reverse, c)
  | bound + 1, found, c =>
    if c.head? == some ' ' then plainBreaks bound found c.forward
    else match c.lineBreak? with
      | none => (some found.reverse, c)
      | some (b, c) => if c.isDocumentMark then (none, c) else plainBreaks bound (b :: found) c

/-- The blanks between two runs of a plain scalar: what they count for, whether a line
ended, and the place behind them. Without any the scalar ends. -/
def plainSpaces (c : Cursor) : List Char × Bool × Cursor :=
  let blanks := c.span (· == ' ')
  let c := c.skip blanks.length
  match c.lineBreak? with
  | none => (blanks, false, c)
  | some (b, c) =>
    if c.isDocumentMark then ([], true, c)
    else match plainBreaks c.rest.length [] c with
      | (none, c) => ([], true, c)
      | (some others, c) => (foldBreaks b others, true, c)

/-- The runs of a plain scalar. `multiline` tells whether a line ended after the last run,
which lets a key begin. -/
def plainRuns (inFlow : Bool) (indent : Int) :
    (bound : Nat) → (read spaces : List Char) → (multiline : Bool) → Cursor →
    List Char × Bool × Cursor
  | 0, read, _, multiline, c => (read, multiline, c)
  | bound + 1, read, spaces, multiline, c =>
    let n := if c.head? == some '#' then 0 else plainRun inFlow c c.rest.length 0
    if n = 0 then (read, multiline, c)
    else
      let read := read ++ spaces ++ c.rest.take n
      let (spaces, multiline, c) := plainSpaces (c.skip n)
      if spaces.isEmpty || c.head? == some '#' || (!inFlow && decide ((c.column : Int) < indent)) then
        (read, multiline, c)
      else plainRuns inFlow indent bound read spaces multiline c

/-- A plain scalar: its text, whether a line ended behind it, and the place behind it.
Outside of flow collections every line is indented by `indent` columns at least. -/
def plainScalar (inFlow : Bool) (indent : Int) (c : Cursor) : String × Bool × Cursor :=
  let (read, multiline, c) := plainRuns inFlow indent (c.rest.length + 1) [] [] false c
  (String.ofList read, multiline, c)

/-! ### Scalars between quotes -/

/-- The characters that a backslash and a character stand for. -/
def namedEscape? : Char → Option Char
  | '0' => some '\x00'
  | 'a' => some '\x07'
  | 'b' => some '\x08'
  | 't' => some '\t'
  | '\t' => some '\t'
  | 'n' => some '\n'
  | 'v' => some '\x0b'
  | 'f' => some '\x0c'
  | 'r' => some '\r'
  | 'e' => some '\x1b'
  | ' ' => some ' '
  | '"' => some '"'
  | '\\' => some '\\'
  | '/' => some '/'
  | 'N' => some '\u0085'
  | '_' => some '\u00a0'
  | 'L' => some '\u2028'
  | 'P' => some '\u2029'
  | _ => none

/-- How many digits follow a backslash and a letter that give a character by number. -/
def escapeLength? : Char → Option Nat
  | 'x' => some 2
  | 'u' => some 4
  | 'U' => some 8
  | _ => none

/-- The number after the last character, and the number that is no number of a character
on any account. -/
def characterCount : Nat := 0x110000
def wordCount : Nat := 0x80000000

/-- The character with a number. -/
def charOfNumber (n : Nat) : Except Trouble Char :=
  if n < characterCount then .ok (Json.unitChar n)
  else .error (.scalar (if n < wordCount then .noCharacter else .hugeCharacter))

/-- Line ends between quotes; a document mark may not stand at the start of a line. -/
def quotedBreaks : (bound : Nat) → (found : List Char) → Cursor → Except Trouble (List Char × Cursor)
  | 0, found, c => .ok (found.reverse, c)
  | bound + 1, found, c =>
    if c.isDocumentMark then .error .malformed
    else
      let c := c.skipWhile fun ch => ch == ' ' || ch == '\t'
      match c.lineBreak? with
      | some (b, c) => quotedBreaks bound (b :: found) c
      | none => .ok (found.reverse, c)

/-- The blanks between two runs of a quoted scalar. -/
def quotedSpaces (c : Cursor) : Except Trouble (List Char × Cursor) :=
  let blanks := c.span fun ch => ch == ' ' || ch == '\t'
  let c := c.skip blanks.length
  if c.isAtEnd then .error .malformed
  else match c.lineBreak? with
    | none => .ok (blanks, c)
    | some (b, c) => do
      let (others, c) ← quotedBreaks (c.rest.length + 1) [] c
      .ok (foldBreaks b others, c)

/-- What a backslash and what follows it stand for. -/
def quotedEscape (c : Cursor) : Except Trouble (List Char × Cursor) :=
  match c.peek 1 with
  | none => .error .malformed
  | some ch =>
    match namedEscape? ch, escapeLength? ch with
    | some e, _ => .ok ([e], c.skip 2)
    | none, some n =>
      let ds := (c.rest.drop 2).take n
      match Json.hexNumber? ds with
      | some code =>
        if ds.length = n then do .ok ([← charOfNumber code], c.skip (n + 2)) else .error .malformed
      | none => .error .malformed
    | none, none =>
      match c.forward.lineBreak? with
      | some (_, c) => quotedBreaks (c.rest.length + 1) [] c
      | none => .error .malformed

/-- A run of characters between quotes, up to a blank, a line end or the quote. -/
def quotedRun (double : Bool) : (bound : Nat) → (read : List Char) → Cursor →
    Except Trouble (List Char × Cursor)
  | 0, read, c => .ok (read, c)
  | bound + 1, read, c =>
    let part := c.span fun ch => !("'\"\\".toList.contains ch || isGap (some ch))
    let read := read ++ part
    let c := c.skip part.length
    match c.head? with
    | some '\'' =>
      if double then quotedRun double bound (read ++ ['\'']) c.forward
      else if c.peek 1 == some '\'' then quotedRun double bound (read ++ ['\'']) (c.skip 2)
      else .ok (read, c)
    | some '"' => if double then .ok (read, c) else quotedRun double bound (read ++ ['"']) c.forward
    | some '\\' =>
      if double then do
        let (escaped, c) ← quotedEscape c
        quotedRun double bound (read ++ escaped) c
      else quotedRun double bound (read ++ ['\\']) c.forward
    | _ => .ok (read, c)

/-- The runs of a quoted scalar up to its closing quote. -/
def quotedRuns (double : Bool) : (bound : Nat) → (read : List Char) → Cursor →
    Except Trouble (List Char × Cursor)
  | 0, _, _ => .error .malformed
  | bound + 1, read, c => do
    let (read, c) ← quotedRun double (c.rest.length + 1) read c
    if c.head? == some (if double then '"' else '\'') then .ok (read, c.forward)
    else
      let (spaces, c) ← quotedSpaces c
      quotedRuns double bound (read ++ spaces) c

/-- A scalar between quotes. -/
def quotedScalar (double : Bool) (c : Cursor) : Except Trouble (String × Cursor) := do
  let (read, c) ← quotedRuns double (c.rest.length + 1) [] c.forward
  .ok (String.ofList read, c)

/-! ### Blocks -/

/-- What becomes of the line ends behind a block: one, none or all of them stay. -/
inductive Chomping where
  | clip | strip | keep
  deriving DecidableEq, Repr

def chompingOf? : Char → Option Chomping
  | '+' => some .keep
  | '-' => some .strip
  | _ => none

/-- A digit that gives an indentation; zero gives none. -/
def indentOf (c : Cursor) : Except Trouble (Option Nat × Cursor) :=
  match c.head? with
  | some ch =>
    if ch = '0' then .error .malformed
    else if ch.isDigit then .ok (some (ch.toNat - '0'.toNat), c.forward)
    else .ok (none, c)
  | none => .ok (none, c)

/-- The signs behind the one that opens a block, in either order. -/
def blockHeader (c : Cursor) : Except Trouble (Chomping × Option Nat × Cursor) := do
  let chomping? (c : Cursor) := c.head?.bind chompingOf?
  let (chomping, indent, c) ← match chomping? c with
    | some k => do
      let (indent, c) ← indentOf c.forward
      .ok (k, indent, c)
    | none => do
      let (indent, c) ← indentOf c
      match indent, chomping? c with
      | some _, some k => .ok (k, indent, c.forward)
      | _, _ => .ok (.clip, indent, c)
  if endsLine c.head? || c.head? == some ' ' then .ok (chomping, indent, c) else .error .malformed

/-- The rest of the line behind the header of a block: blanks and a comment. -/
def ignoredLine (c : Cursor) : Except Trouble Cursor :=
  let c := c.skipWhile (· == ' ')
  let c := if c.head? == some '#' then c.skipWhile (fun ch => !isBreak ch) else c
  if endsLine c.head? then .ok c.skipLineBreak else .error .malformed

/-- The empty lines before a block whose indentation is not given, and the widest
indentation among them and the first line that is not empty. -/
def leadingLines : (bound widest : Nat) → (found : List Char) → Cursor → List Char × Nat × Cursor
  | 0, widest, found, c => (found.reverse, widest, c)
  | bound + 1, widest, found, c =>
    if c.head? == some ' ' then
      let c := c.forward
      leadingLines bound (max widest c.column) found c
    else match c.lineBreak? with
      | some (b, c) => leadingLines bound widest (b :: found) c
      | none => (found.reverse, widest, c)

/-- Passes blanks up to the column `indent`. -/
def skipIndent (indent : Nat) : (bound : Nat) → Cursor → Cursor
  | 0, c => c
  | bound + 1, c =>
    if c.column < indent && c.head? == some ' ' then skipIndent indent bound c.forward else c

/-- The empty lines before a line of a block. -/
def blockBreaks (indent : Nat) : (bound : Nat) → (found : List Char) → Cursor → List Char × Cursor
  | 0, found, c => (found.reverse, c)
  | bound + 1, found, c =>
    let c := skipIndent indent c.rest.length c
    match c.lineBreak? with
    | some (b, c) => blockBreaks indent bound (b :: found) c
    | none => (found.reverse, c)

/-- The lines of a block; `breaks` are the empty lines before the next one. The answer
is the text, the last line end, the empty lines behind it and the place behind them. -/
def blockLines (folded : Bool) (indent : Nat) :
    (bound : Nat) → (read lastBreak breaks : List Char) → Cursor →
    List Char × List Char × List Char × Cursor
  | 0, read, lastBreak, breaks, c => (read, lastBreak, breaks, c)
  | bound + 1, read, lastBreak, breaks, c =>
    if c.column ≠ indent || c.isAtEnd then (read, lastBreak, breaks, c)
    else
      let isText (c : Cursor) := !(c.head? == some ' ' || c.head? == some '\t')
      let line := c.span fun ch => !isBreak ch
      let read := read ++ breaks ++ line
      let afterLine := c.skip line.length
      let (lastBreak, next) := match afterLine.lineBreak? with
        | some (b, next) => ([b], next)
        | none => ([], afterLine)
      let (breaks, next) := blockBreaks indent (next.rest.length + 1) [] next
      if next.column = indent && !next.isAtEnd then
        if folded && lastBreak == ['\n'] && isText c && isText next then
          blockLines folded indent bound (if breaks.isEmpty then read ++ [' '] else read) lastBreak breaks next
        else blockLines folded indent bound (read ++ lastBreak) lastBreak breaks next
      else (read, lastBreak, breaks, next)

/-- A block: literal, or folded like a plain scalar. `indent` is the indentation of the
collection around it. -/
def blockScalar (folded : Bool) (indent : Int) (c : Cursor) : Except Trouble (String × Cursor) := do
  let (chomping, given, c) ← blockHeader c.forward
  let c ← ignoredLine c
  let least := (max (indent + 1) 1).toNat
  let (column, breaks, c) := match given with
    | none =>
      let (breaks, widest, c) := leadingLines (c.rest.length + 1) 0 [] c
      (max least widest, breaks, c)
    | some n =>
      let column := least + n - 1
      let (breaks, c) := blockBreaks column (c.rest.length + 1) [] c
      (column, breaks, c)
  let (read, lastBreak, breaks, c) := blockLines folded column (c.rest.length + 1) [] [] breaks c
  let tail := match chomping with
    | .strip => []
    | .clip => lastBreak
    | .keep => lastBreak ++ breaks
  .ok (String.ofList (read ++ tail), c)

end Cursor
end Yaml
end ArgSchema
