/-
# Tokens of a YAML text

A text as a list of tokens: the signs of block and flow collections, scalars,
anchors, aliases, tags and the marks of documents. Blocks are opened and closed by
the indentation. A key without a sign of its own is known by the colon behind it:
it has to be on one line, and its tokens are put before what was read meanwhile.

Key definitions:
* `Directive`, `Token`: the tokens.
* `Lexer`: what is known at a place of the text.
* `Token.ofText`: the tokens of a text.
-/
import ArgSchema.Yaml.Scalar
import ArgSchema.Text.Utf8

namespace ArgSchema
namespace Yaml

/-- A directive: the version of YAML, a handle of tags and what it stands for, or one that says
nothing. -/
inductive Directive where
  | version (major minor : Nat)
  | handle (name target : String)
  | unknown
  deriving DecidableEq, Repr

/-- A token. Where a scalar cannot be read the text ends in a fault. -/
inductive Token where
  | directive (d : Directive)
  | documentStart
  | documentEnd
  | blockSequenceStart
  | blockMappingStart
  | blockEnd
  | flowSequenceStart
  | flowSequenceEnd
  | flowMappingStart
  | flowMappingEnd
  | flowEntry
  | blockEntry
  | key
  | value
  | reference (name : String)
  | anchor (name : String)
  | tag (handle : Option String) (suffix : String)
  | scalar (plain : Bool) (text : String)
  | fault (cause : ScalarFault)
  deriving DecidableEq, Repr

/-- A token that may turn out to be a key: its place among the tokens and in the text.
A required one stands where only a key can. -/
structure PendingKey where
  place : Nat
  required : Bool
  index : Nat
  line : Nat
  column : Nat
  deriving Repr

/-- What is known at a place of the text: the tokens so far, the pending key of each open
flow collection and of the block around them, the innermost first, and the columns of
the open blocks. -/
structure Lexer where
  cursor : Cursor
  tokens : List Token
  pending : List (Option PendingKey)
  indent : Int
  indents : List Int
  keyAllowed : Bool
  deriving Repr

namespace Lexer

def start (s : String) : Lexer := ⟨Cursor.ofText s, [], [none], -1, [], true⟩

/-- Whether a flow collection is open. -/
def inFlow (l : Lexer) : Bool := 1 < l.pending.length

def add (l : Lexer) (t : Token) : Lexer := { l with tokens := l.tokens ++ [t] }

/-- Puts a token at a place before tokens that are there. -/
def addAt (l : Lexer) (place : Nat) (t : Token) : Lexer :=
  { l with tokens := l.tokens.take place ++ t :: l.tokens.drop place }

def column (l : Lexer) : Int := l.cursor.column

/-! ### Keys -/

/-- The most characters between the start of a key and its colon. -/
def longestKey : Nat := 1024

/-- Gives up a pending key; a required one is an error. -/
def giveUp (k : Option PendingKey) : Except Trouble (Option PendingKey) :=
  match k with
  | some key => if key.required then .error .malformed else .ok none
  | none => .ok none

/-- Gives up a pending key that started on another line or too far away. -/
def giveUpIfStale (c : Cursor) : Option PendingKey → Except Trouble (Option PendingKey)
  | some key => if key.line ≠ c.line || longestKey < c.index - key.index then giveUp (some key) else .ok (some key)
  | none => .ok none

/-- Gives up the pending keys that are stale. -/
def dropStale (l : Lexer) : Except Trouble Lexer := do
  .ok { l with pending := ← l.pending.mapM (giveUpIfStale l.cursor) }

/-- Gives up the pending key of the innermost collection. -/
def dropKey (l : Lexer) : Except Trouble Lexer :=
  match l.pending with
  | k :: rest => do .ok { l with pending := (← giveUp k) :: rest }
  | [] => .ok l

/-- The next token may be a key, if keys are allowed here. -/
def saveKey (l : Lexer) : Except Trouble Lexer :=
  if l.keyAllowed then do
    let l ← l.dropKey
    let required := !l.inFlow && l.indent == l.column
    let key : PendingKey := ⟨l.tokens.length, required, l.cursor.index, l.cursor.line, l.cursor.column⟩
    .ok { l with pending := some key :: l.pending.drop 1 }
  else .ok l

/-! ### Indentation -/

/-- Closes the blocks that are indented further than `column`. -/
def unwind (column : Int) : List Int → Lexer → Lexer
  | [], l => l
  | outer :: rest, l =>
    if column < l.indent then
      unwind column rest { l.add .blockEnd with indent := outer, indents := rest }
    else l

/-- Closes blocks, unless a flow collection is open. -/
def unwindTo (l : Lexer) (column : Int) : Lexer :=
  if l.inFlow then l else unwind column l.indents l

/-- Whether a block starts at `column`, and the state with it opened. -/
def indentTo (l : Lexer) (column : Int) : Bool × Lexer :=
  if l.indent < column then (true, { l with indent := column, indents := l.indent :: l.indents })
  else (false, l)

/-- Passes blanks, comments and line ends. Behind a line end a key may begin. -/
def skipGaps : (bound : Nat) → Lexer → Lexer
  | 0, l => l
  | bound + 1, l =>
    let c := l.cursor
    let c := if c.index = 0 && c.head? == some byteOrderMark then c.forward else c
    let c := c.skipWhile (· == ' ')
    let c := if c.head? == some '#' then c.skipWhile (fun ch => !isBreak ch) else c
    match c.lineBreak? with
    | some (_, next) =>
      skipGaps bound { l with cursor := next, keyAllowed := l.keyAllowed || !l.inFlow }
    | none => { l with cursor := c }

/-! ### Names behind a sign -/

def isNameChar (c : Char) : Bool :=
  c.isDigit || ('A' ≤ c && c ≤ 'Z') || ('a' ≤ c && c ≤ 'z') || c == '-' || c == '_'

/-- A name behind a sign, which must not run into other characters. -/
def nameBehindSign (c : Cursor) : Except Trouble (String × Cursor) :=
  let c := c.forward
  let name := c.span isNameChar
  let c := c.skip name.length
  if name.isEmpty then .error .malformed
  else if Cursor.isGap c.head? || c.head?.any (fun ch => "?:,]\x7d%@\x60".toList.contains ch) then
    .ok (String.ofList name, c)
  else .error .malformed

/-- The token that a name behind a sign is made into. -/
def nameToken (make : String → Token) (c : Cursor) : Except Trouble (Token × Cursor) := do
  let (name, c) ← nameBehindSign c
  .ok (make name, c)

/-- A quoted scalar as a token. -/
def quotedToken (double : Bool) (c : Cursor) : Except Trouble (Token × Cursor) := do
  let (text, c) ← c.quotedScalar double
  .ok (.scalar false text, c)

/-- Characters of a tag, apart from those written by number. -/
def isTagChar (c : Char) : Bool := isNameChar c || ";/?:@&=+$,.!~*'()[]".toList.contains c

/-- The bytes written by number at the front, each as a percent sign and two digits, and the
characters behind them. -/
def numberedBytes : List Char → Except Trouble (List Nat × List Char)
  | '%' :: high :: low :: rest =>
    match Json.hexNumber? [high, low] with
    | some byte => do
      let (bytes, rest) ← numberedBytes rest
      .ok (byte :: bytes, rest)
    | none => .error .malformed
  | '%' :: _ => .error .malformed
  | cs => .ok ([], cs)

/-- The characters of a tag at the front, and those behind it. Bytes in a row that are written
by number are UTF-8. -/
def tagRun : (bound : Nat) → List Char → Except Trouble (List Char × List Char)
  | 0, cs => .ok ([], cs)
  | _ + 1, [] => .ok ([], [])
  | bound + 1, c :: rest =>
    if c = '%' then do
      let (bytes, rest) ← numberedBytes (c :: rest)
      match Utf8.decode bytes with
      | .ok text => do
        let (more, rest) ← tagRun bound rest
        .ok (text.toList ++ more, rest)
      | .error _ => .error .malformed
    else if isTagChar c then do
      let (more, rest) ← tagRun bound rest
      .ok (c :: more, rest)
    else .ok ([], c :: rest)

/-- The rest of a tag, which is not empty. -/
def tagText (c : Cursor) : Except Trouble (String × Cursor) := do
  let (text, behind) ← tagRun c.rest.length c.rest
  if text.isEmpty then .error .malformed
  else .ok (String.ofList text, c.skip (c.rest.length - behind.length))

/-- The handle of a tag: a lone sign before a blank, or a name between two signs. -/
def tagHandle (c : Cursor) : Except Trouble (String × Cursor) :=
  let name := c.forward.span isNameChar
  if c.head? != some '!' then .error .malformed
  else if c.peek 1 == some ' ' then .ok ("!", c.forward)
  else if c.peek (name.length + 1) == some '!' then
    .ok (String.ofList ('!' :: name ++ ['!']), c.skip (name.length + 2))
  else .error .malformed

/-- Fails unless a blank or a line end is next. -/
def endWord (c : Cursor) : Except Trouble Unit :=
  if Cursor.endsLine c.head? || c.head? == some ' ' then .ok () else .error .malformed

/-- A tag: verbatim between angles, a lone sign, or a handle and a suffix. A second sign before
the next blank or line end is the end of a handle. -/
def tagBehindSign (c : Cursor) : Except Trouble (Token × Cursor) := do
  let (token, c) ← match c.peek 1 with
    | some '<' => do
      let (suffix, c) ← tagText (c.skip 2)
      if c.head? == some '>' then .ok (.tag none suffix, c.forward) else .error .malformed
    | some ch =>
      if Cursor.isGap (some ch) then .ok (.tag none "!", c.forward)
      else if (c.forward.span fun ch => !(ch == ' ' || isBreak ch)).contains '!' then do
        let (handle, c) ← tagHandle c
        let (suffix, c) ← tagText c
        .ok (.tag (some handle) suffix, c)
      else do
        let (suffix, c) ← tagText c.forward
        .ok (.tag (some "!") suffix, c)
    | none => .ok (.tag none "!", c.forward)
  endWord c
  .ok (token, c)

/-- A number of a version. -/
def versionNumber (c : Cursor) : Except Trouble (Nat × Cursor) :=
  let digits := c.span Char.isDigit
  if digits.isEmpty then .error .malformed else .ok (natOfDigits digits, c.skip digits.length)

/-- The version that a directive gives: two numbers with a point between them. -/
def versionAt (c : Cursor) : Except Trouble (Directive × Cursor) := do
  let (major, c) ← versionNumber (c.skipWhile (· == ' '))
  if c.head? != some '.' then .error .malformed
  else
    let (minor, c) ← versionNumber c.forward
    endWord c
    .ok (.version major minor, c)

/-- The handle that a directive gives, and what it stands for. -/
def handleAt (c : Cursor) : Except Trouble (Directive × Cursor) := do
  let (name, c) ← tagHandle (c.skipWhile (· == ' '))
  if c.head? != some ' ' then .error .malformed
  else
    let (target, c) ← tagText (c.skipWhile (· == ' '))
    endWord c
    .ok (.handle name target, c)

/-- A directive, up to the end of its line. A comment may follow. -/
def directiveAt (c : Cursor) : Except Trouble (Token × Cursor) := do
  let name := c.forward.span isNameChar
  let c := c.forward.skip name.length
  if name.isEmpty then .error .malformed
  else
    endWord c
    let (d, c) ←
      if name = "YAML".toList then versionAt c
      else if name = "TAG".toList then handleAt c
      else .ok (.unknown, c.skipWhile fun ch => !isBreak ch)
    .ok (.directive d, ← c.ignoredLine)

/-! ### Tokens -/

/-- A mark of a document. -/
def documentMark (l : Lexer) (t : Token) : Except Trouble Lexer := do
  let l ← (l.unwindTo (-1)).dropKey
  .ok { l.add t with cursor := l.cursor.skip 3, keyAllowed := false }

/-- The start of a flow collection. -/
def flowStart (l : Lexer) (t : Token) : Except Trouble Lexer := do
  let l ← l.saveKey
  .ok { l.add t with cursor := l.cursor.forward, pending := none :: l.pending, keyAllowed := true }

/-- The end of a flow collection; one has to be open. -/
def flowEnd (l : Lexer) (t : Token) : Except Trouble Lexer := do
  let l ← l.dropKey
  match l.pending with
  | _ :: outer :: rest =>
    .ok { l.add t with cursor := l.cursor.forward, pending := outer :: rest, keyAllowed := false }
  | _ => .error .malformed

/-- The comma between the entries of a flow collection. -/
def flowComma (l : Lexer) : Except Trouble Lexer := do
  let l ← l.dropKey
  .ok { l.add .flowEntry with cursor := l.cursor.forward, keyAllowed := true }

/-- Opens a block of the kind `t` at the present column, unless it is open already. A
flow collection has no blocks, and where no key can stand no block can start. -/
def openBlock (l : Lexer) (t : Token) : Except Trouble Lexer :=
  if l.inFlow then .ok l
  else if !l.keyAllowed then .error .malformed
  else
    let (opened, l) := l.indentTo l.column
    .ok (if opened then l.add t else l)

/-- The dash of an entry. -/
def entryDash (l : Lexer) : Except Trouble Lexer := do
  let l ← (← l.openBlock .blockSequenceStart).dropKey
  .ok { l.add .blockEntry with cursor := l.cursor.forward, keyAllowed := true }

/-- The sign of a key. -/
def keySign (l : Lexer) : Except Trouble Lexer := do
  let l ← (← l.openBlock .blockMappingStart).dropKey
  .ok { l.add .key with cursor := l.cursor.forward, keyAllowed := !l.inFlow }

/-- The colon before a value. It makes the pending key a key. -/
def valueColon (l : Lexer) : Except Trouble Lexer := do
  match l.pending with
  | some key :: rest =>
    let l := { l with pending := none :: rest, keyAllowed := false }.addAt key.place .key
    let (opened, l) := if l.inFlow then (false, l) else l.indentTo key.column
    let l := if opened then l.addAt key.place .blockMappingStart else l
    .ok { l.add .value with cursor := l.cursor.forward }
  | _ =>
    let l ← l.openBlock .blockMappingStart
    let l ← { l with keyAllowed := !l.inFlow }.dropKey
    .ok { l.add .value with cursor := l.cursor.forward }

/-- A token that may be a key, with the place behind it. -/
def keyLike (l : Lexer) (read : Cursor → Except Trouble (Token × Cursor)) : Except Trouble Lexer := do
  let l ← l.saveKey
  let (t, c) ← read l.cursor
  .ok { l.add t with cursor := c, keyAllowed := false }

/-- A plain scalar. Behind a line end a key may begin. -/
def plainToken (l : Lexer) : Except Trouble Lexer := do
  let l ← l.saveKey
  let (text, multiline, c) := l.cursor.plainScalar l.inFlow (l.indent + 1)
  .ok { l.add (.scalar true text) with cursor := c, keyAllowed := multiline }

/-- A block scalar. -/
def blockToken (l : Lexer) (folded : Bool) : Except Trouble Lexer := do
  let l ← { l with keyAllowed := true }.dropKey
  let (text, c) ← l.cursor.blockScalar folded l.indent
  .ok { l.add (.scalar false text) with cursor := c }

/-- Whether a plain scalar starts here. -/
def startsPlain (l : Lexer) : Bool :=
  match l.cursor.head? with
  | none => false
  | some ch =>
    !(Cursor.isGap (some ch) || "-?:,[]\x7b\x7d#&*!|>'\"%@\x60".toList.contains ch)
      || (!Cursor.isGap (l.cursor.peek 1) && (ch == '-' || (!l.inFlow && (ch == '?' || ch == ':'))))

/-- The token at a character that is no gap. -/
def token (l : Lexer) (ch : Char) : Except Trouble Lexer :=
  let c := l.cursor
  let gapBehind := Cursor.isGap (c.peek 1)
  if ch = '%' ∧ c.column = 0 then do
    let l ← (l.unwindTo (-1)).dropKey
    let (t, next) ← directiveAt c
    .ok { l.add t with cursor := next, keyAllowed := false }
  else if c.column = 0 ∧ c.isSeparator '-' then l.documentMark .documentStart
  else if c.column = 0 ∧ c.isSeparator '.' then l.documentMark .documentEnd
  else if ch = '[' then l.flowStart .flowSequenceStart
  else if ch = '\x7b' then l.flowStart .flowMappingStart
  else if ch = ']' then l.flowEnd .flowSequenceEnd
  else if ch = '\x7d' then l.flowEnd .flowMappingEnd
  else if ch = ',' then l.flowComma
  else if ch = '-' ∧ gapBehind then l.entryDash
  else if ch = '?' ∧ (l.inFlow ∨ gapBehind) then l.keySign
  else if ch = ':' ∧ (l.inFlow ∨ gapBehind) then l.valueColon
  else if ch = '*' then l.keyLike (nameToken .reference)
  else if ch = '&' then l.keyLike (nameToken .anchor)
  else if ch = '!' then l.keyLike tagBehindSign
  else if (ch = '|' ∨ ch = '>') ∧ ¬l.inFlow then l.blockToken (ch == '>')
  else if ch = '\'' ∨ ch = '"' then l.keyLike (quotedToken (ch == '"'))
  else if l.startsPlain then l.plainToken
  else .error .malformed

/-- The tokens that can be told without reading on: those before the first one that may
still turn out to be a key. -/
def settled (l : Lexer) : List Token :=
  match (l.pending.filterMap fun k => k.map PendingKey.place).min? with
  | some place => l.tokens.take place
  | none => l.tokens

/-- Reads tokens up to the end of the text. Each takes a character at least. Behind a
scalar that cannot be read nothing is known, and before it what is settled. -/
def run : (bound : Nat) → Lexer → Except Trouble (List Token)
  | 0, _ => .error .malformed
  | bound + 1, l => do
    let l ← l.dropStale
    let next ← (l.skipGaps (l.cursor.rest.length + 1)).dropStale
    let next := next.unwindTo next.column
    match next.cursor.head? with
    | none => do
      let last ← (next.unwindTo (-1)).dropKey
      .ok last.tokens
    | some ch =>
      match next.token ch with
      | .ok next => run bound next
      | .error (.scalar cause) => .ok (l.settled ++ [.fault cause])
      | .error .malformed => .error .malformed

end Lexer

/-- The tokens of a text. -/
def Token.ofText (s : String) : Except Trouble (List Token) :=
  if s.toList.all isAllowed then (Lexer.start s).run (s.length + 2) else .error .malformed

end Yaml
end ArgSchema
