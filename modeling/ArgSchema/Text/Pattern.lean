/-
# Regular expressions as text

A pattern can switch on ways of matching at its front, with letters in a group of their
own, and its text names them. Comments may stand between such groups. Blanks and line
comments may do so as well once the letter for a free layout was read; anything else ends
the front.

Key definitions:
* `frontLetters`: the letters at the front of a pattern.
* `patternText`: the text that shows a pattern.
-/
import ArgSchema.Text.Quoted
import ArgSchema.Calendar

namespace ArgSchema

/-- What follows the first `stop` that has no backslash before it. -/
def afterUnescaped (stop : Char) : List Char → List Char
  | [] => []
  | ['\\'] => []
  | '\\' :: _ :: rest => afterUnescaped stop rest
  | c :: rest => if c = stop then rest else afterUnescaped stop rest

/-- Letters that switch on a way of matching. -/
def isPatternLetter (c : Char) : Bool := "aimstux".contains c

/-- Characters that say nothing in a free layout. -/
def isLayoutBlank (c : Char) : Bool := " \t\n\r\x0b\x0c".contains c

/-- The letters of the groups at the front of a pattern; `free` tells whether the layout
is free. Every step takes a character at least. -/
def frontLetters : (bound : Nat) → (free : Bool) → List Char → List Char
  | 0, _, _ => []
  | bound + 1, free, cs =>
    match cs with
    | '(' :: '?' :: '#' :: rest => frontLetters bound free (afterUnescaped ')' rest)
    | '(' :: '?' :: rest =>
      let letters := rest.takeWhile isPatternLetter
      match rest.drop letters.length with
      | ')' :: rest => letters ++ frontLetters bound (free || letters.contains 'x') rest
      | _ => []
    | c :: rest =>
      if free && c == '#' then frontLetters bound free (afterUnescaped '\n' rest)
      else if free && isLayoutBlank c then frontLetters bound free rest
      else []
    | [] => []

/-- The names of the ways of matching, in the order in which they are shown. Matching by
the rules for all characters is the usual way and is not shown. -/
def patternLetterNames : List (Char × String) :=
  [('t', "re.TEMPLATE"), ('i', "re.IGNORECASE"), ('m', "re.MULTILINE"), ('s', "re.DOTALL"),
    ('x', "re.VERBOSE"), ('a', "re.ASCII")]

/-- A pattern shows at most this many characters of its quoted text. -/
def patternLimit : Nat := 200

/-- The text that shows a pattern: the quoted text of the pattern, and the ways of matching
that are switched on at its front. -/
def patternText (pattern : String) : String :=
  let letters := frontLetters (pattern.length + 1) false pattern.toList
  let names := (patternLetterNames.filter fun e => letters.contains e.1).map Prod.snd
  let quoted := String.ofList ((quoteText pattern).toList.take patternLimit)
  "re.compile(" ++ quoted ++ (if names.isEmpty then "" else ", " ++ joinWith "|" names) ++ ")"

end ArgSchema
