import Dialogue.Report
import Dialogue.Text.Blank
import Dialogue.Text.Case
import Dialogue.Value

/-!
# The text of choice entries

Behind its arrow an entry of a choice holds a label and up to two tags,

    -> label [if condition] [time seconds]

which may stand anywhere in the text and in either order. The `if` tag is cut out first and the
`time` tag from what remains; the pieces around a tag are joined by one space.

A tag starts with a bracket directly before its keyword, which has to end there: behind it comes a
blank or the closing bracket. Everything up to the first closing bracket belongs to the tag.
-/

namespace Dialogue

/-- The two tags. -/
inductive Tag where
  | condition
  | time
  deriving DecidableEq, Repr

namespace Tag

/-- The keyword of a tag. -/
def keyword : Tag → List Char
  | .condition => ['i', 'f']
  | .time => ['t', 'i', 'm', 'e']

/-- What follows the keyword, if a text starts with a tag. -/
def behindKeyword? (t : Tag) : List Char → Option (List Char)
  | [] => none
  | c :: cs =>
    if c = '[' ∧ Text.sameIgnoringCase (cs.take t.keyword.length) t.keyword then
      match cs.drop t.keyword.length with
      | [] => none
      | d :: rest => if Text.isBlank d || d == ']' then some (d :: rest) else none
    else none

/-- The text before the first tag, and what follows the keyword of the tag. -/
def find? (t : Tag) : List Char → Option (List Char × List Char)
  | [] => none
  | c :: cs =>
    match t.behindKeyword? (c :: cs) with
    | some rest => some ([], rest)
    | none => (t.find? cs).map fun (before, rest) => (c :: before, rest)

end Tag

/-- What is wrong with a tag. -/
inductive TagFault where
  | unclosed (t : Tag)
  | emptyCondition
  | badSeconds (text : String)
  deriving DecidableEq, Repr

namespace TagFault

/-- The code of a fault. -/
def code : TagFault → Code
  | .unclosed .condition => ⟨200⟩
  | .unclosed .time => ⟨201⟩
  | .emptyCondition => ⟨200⟩
  | .badSeconds _ => ⟨201⟩

/-- The wording of a fault. -/
def message : TagFault → String
  | .unclosed t => "[" ++ String.ofList t.keyword ++ "] tag is missing its closing ']'"
  | .emptyCondition => "empty condition in [if] tag"
  | .badSeconds text => "invalid seconds '" ++ text ++ "' in [time] tag"

end TagFault

/-- Two pieces of a text, with a space between them if both hold something. -/
def joinPieces (a b : List Char) : List Char :=
  if a = [] ∨ b = [] then a ++ b else a ++ ' ' :: b

/-- A tag cut out of a text: what is left of the text, and what the tag holds behind its keyword. A
text without the tag is left as it is. -/
def Tag.cut (t : Tag) (cs : List Char) : Except TagFault (List Char × Option (List Char)) :=
  match t.find? cs with
  | none => .ok (cs, none)
  | some (before, rest) =>
    match rest.dropWhile (· != ']') with
    | [] => .error (.unclosed t)
    | _ :: after =>
      .ok (joinPieces (Text.trimEnd before) (Text.trimStart after),
        some (rest.takeWhile (· != ']')))

/-- What an entry of a choice says. -/
structure EntryText where
  label : List Char
  condition : Option (List Char)
  seconds : Option Float

namespace EntryText

/-- The condition in an `if` tag, which may not be blank. -/
def readCondition : Option (List Char) → Except TagFault (Option (List Char))
  | none => .ok none
  | some inner =>
    let c := Text.trim inner
    if c = [] then .error .emptyCondition else .ok (some c)

/-- The seconds in a `time` tag: a number that is not negative. -/
def readSeconds : Option (List Char) → Except TagFault (Option Float)
  | none => .ok none
  | some inner =>
    let text := String.ofList (Text.trim inner)
    match readNumber? text with
    | none => .error (.badSeconds text)
    | some x => if 0 ≤ x then .ok (some x) else .error (.badSeconds text)

/-- The entry that a text holds. -/
def ofText (cs : List Char) : Except TagFault EntryText :=
  match Tag.condition.cut cs with
  | .error e => .error e
  | .ok (afterIf, inner) =>
    match readCondition inner with
    | .error e => .error e
    | .ok condition =>
      match Tag.time.cut afterIf with
      | .error e => .error e
      | .ok (afterTime, inner) =>
        match readSeconds inner with
        | .error e => .error e
        | .ok seconds => .ok ⟨Text.trim afterTime, condition, seconds⟩

end EntryText

/-- The tag that a fault is about. -/
def TagFault.tag : TagFault → Tag
  | .unclosed t => t
  | .emptyCondition => .condition
  | .badSeconds _ => .time

/-- Where in the text of an entry a fault is shown: at the first tag of its kind. The text meant is
the whole one, also for a `time` tag that only showed itself when the `if` tag had been cut out. -/
def TagFault.offset (e : TagFault) (cs : List Char) : Nat :=
  match e.tag.find? cs with
  | some (before, _) => before.length
  | none => 0

end Dialogue
