import Dialogue.Report
import Dialogue.Script.Graph
import Dialogue.Text.Case
import Dialogue.Text.Letter

/-!
# The text of commands

A command line holds its command between `<<` and `>>`. There are two commands,

    jump Name
    set name = value

and the opener `if condition` of a branch, which is told from them by its first word. Keywords are
recognised in any case of their letters.
-/

namespace Dialogue

/-! ### Values -/

/-- The value on the right of a `set`: a truth value, a text between double quotes, or a number; any
other text is a string as it stands. -/
def Value.ofText (cs : List Char) : Value :=
  let cs := Text.trim cs
  if Text.sameIgnoringCase cs ['t', 'r', 'u', 'e'] then .bool true
  else if Text.sameIgnoringCase cs ['f', 'a', 'l', 's', 'e'] then .bool false
  else if cs.head? = some '"' ∧ cs.tail.getLast? = some '"' then
    .string (String.ofList cs.tail.dropLast)
  else
    match readNumber? (String.ofList cs) with
    | some x => .number x
    | none => .string (String.ofList cs)

/-! ### Command lines -/

/-- What stands between `<<` and `>>`, if a line is a command line. -/
def commandBody? (line : List Char) : Option (List Char) :=
  match Text.trim line with
  | '<' :: '<' :: cs =>
    match cs.reverse with
    | '>' :: '>' :: body => some (Text.trim body.reverse)
    | _ => none
  | _ => none

/-- The condition of an `if` opener. The word has to end behind its two letters. -/
def ifCondition? (body : List Char) : Option (List Char) :=
  if Text.sameIgnoringCase (body.take 2) ['i', 'f'] then
    match body.drop 2 with
    | [] => some []
    | c :: cs => if Text.isWordChar c then none else some (Text.trim (c :: cs))
  else none

/-! ### Commands -/

/-- What is wrong with a command. -/
inductive CommandFault where
  | unknownCommand (word : String)
  | noEquals (body : String)
  | noName
  | noTarget
  deriving DecidableEq, Repr

namespace CommandFault

/-- The code of a fault. -/
def code : CommandFault → Code
  | .unknownCommand _ => ⟨300⟩
  | .noEquals _ => ⟨301⟩
  | .noName => ⟨301⟩
  | .noTarget => ⟨302⟩

/-- The wording of a fault. -/
def message : CommandFault → String
  | .unknownCommand word => "unknown command '" ++ word ++ "'"
  | .noEquals body => "expected '=' in set command '" ++ body ++ "'"
  | .noName => "set command has no variable name"
  | .noTarget => "jump requires a target node name"

/-- How a fault can be mended. -/
def suggestion : CommandFault → Option String
  | .unknownCommand _ => some "known commands are 'jump' and 'set'"
  | .noEquals _ => some "write <<set name = value>>"
  | .noName => none
  | .noTarget => some "write <<jump NodeName>>"

end CommandFault

namespace Command

/-- The jump to the node that a text names. -/
def readJump (tail : List Char) : Except CommandFault Command :=
  let target := Text.trim tail
  if target = [] then .error .noTarget else .ok (.jump (String.ofList target))

/-- The assignment that a text holds; `body` is the whole command, for the message. -/
def readSet (body tail : List Char) : Except CommandFault Command :=
  match tail.dropWhile (· != '=') with
  | [] => .error (.noEquals (String.ofList body))
  | _ :: value =>
    let name := Text.trim (tail.takeWhile (· != '='))
    if name = [] then .error .noName else .ok (.set (String.ofList name) (Value.ofText value))

/-- The command that a text holds. Its first word tells which one it is. -/
def ofText (cs : List Char) : Except CommandFault Command :=
  let body := Text.trim cs
  let word := body.takeWhile (fun c => !Text.isBlank c)
  let tail := (body.dropWhile (fun c => !Text.isBlank c)).tail
  if Text.sameIgnoringCase word ['j', 'u', 'm', 'p'] then readJump tail
  else if Text.sameIgnoringCase word ['s', 'e', 't'] then readSet body tail
  else .error (.unknownCommand (String.ofList word))

end Command

end Dialogue
