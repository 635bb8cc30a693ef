/-
# UTF-8

Strict decoding of bytes. An error names the bytes that cannot be part of a
character: a byte that starts none, the start of a character that does not go on,
or the start of a character at the end of the data.

Key definitions:
* `Utf8.decode`: the characters of bytes, or the first error.
* `Utf8.Problem.message`: the wording of an error.
-/
import ArgSchema.Text.Quoted

namespace ArgSchema
namespace Utf8

/-- Why bytes are not UTF-8. -/
inductive Reason where
  | start | continuation | ending
  deriving DecidableEq, Repr

def Reason.message : Reason → String
  | .start => "invalid start byte"
  | .continuation => "invalid continuation byte"
  | .ending => "unexpected end of data"

/-- An error: the bytes in question and the number of bytes before them. -/
structure Problem where
  reason : Reason
  position : Nat
  bytes : List Nat
  deriving DecidableEq, Repr

/-- How many bytes a character has that starts with this one, if one does. -/
def lengthOf? (b : Nat) : Option Nat :=
  if b < 0x80 then some 1
  else if b < 0xC2 then none
  else if b < 0xE0 then some 2
  else if b < 0xF0 then some 3
  else if b < 0xF5 then some 4
  else none

/-- Whether `b` may follow `first` as the second byte: no overlong form, no surrogate,
nothing past the last character. -/
def isSecond (first b : Nat) : Bool :=
  let low := if first = 0xE0 then 0xA0 else if first = 0xF0 then 0x90 else 0x80
  let high := if first = 0xED then 0x9F else if first = 0xF4 then 0x8F else 0xBF
  low ≤ b && b ≤ high

def isTail (b : Nat) : Bool := 0x80 ≤ b && b ≤ 0xBF

/-- How many of the bytes after `first` continue its character, at most `wanted`. -/
def continued (first wanted : Nat) : List Nat → Nat
  | [] => 0
  | b :: rest =>
    if wanted = 0 ∨ !isSecond first b then 0 else 1 + ((rest.take (wanted - 1)).takeWhile isTail).length

/-- The character of the bytes of one character. -/
def charOf (first : Nat) (tail : List Nat) : Char :=
  let head := match tail.length with
    | 0 => first
    | 1 => first % 0x20
    | 2 => first % 0x10
    | _ => first % 0x08
  Char.ofNat (tail.foldl (fun n b => 64 * n + b % 64) head)

/-- Decodes bytes, `position` of which are behind; `read` holds the characters read so
far, the last one first. -/
def decodeFrom (position : Nat) (read : List Char) : List Nat → Except Problem (List Char)
  | [] => .ok read.reverse
  | b :: rest =>
    match lengthOf? b with
    | none => .error ⟨.start, position, [b]⟩
    | some n =>
      let k := continued b (n - 1) rest
      if k = n - 1 then decodeFrom (position + n) (charOf b (rest.take k) :: read) (rest.drop k)
      else if k = rest.length then .error ⟨.ending, position, b :: rest⟩
      else .error ⟨.continuation, position, b :: rest.take k⟩
termination_by bytes => bytes.length
decreasing_by simp only [List.length_drop, List.length_cons]; omega

/-- Decodes bytes. -/
def decode (bytes : List Nat) : Except Problem String := (decodeFrom 0 [] bytes).map String.ofList

/-- The wording of an error. -/
def Problem.message (p : Problem) : String :=
  "'utf-8' codec can't decode " ++
    (match p.bytes with
      | [b] => "byte 0x" ++ String.ofList (hexDigits 2 b) ++ " in position " ++ toString p.position
      | bs => "bytes in position " ++ toString p.position ++ "-" ++ toString (p.position + bs.length - 1))
    ++ ": " ++ p.reason.message

end Utf8

/-- Every line ends with the one character for the end of a line. -/
def unifyLineEnds : List Char → List Char
  | [] => []
  | '\r' :: '\n' :: rest => '\n' :: unifyLineEnds rest
  | '\r' :: rest => '\n' :: unifyLineEnds rest
  | c :: rest => c :: unifyLineEnds rest

end ArgSchema
