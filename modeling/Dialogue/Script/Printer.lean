import Dialogue.Condition.Printer
import Dialogue.Script.Graph

/-!
# Writing scripts

A node is written as a title, a fence, one line for each of its parts, and a close:

    title: Name
    ---
    a line of dialogue
    <<if condition>>
    …
    <<else>>
    …
    <<endif>>
    -> label [if condition] [time seconds]
        <<command>>

    ===

Steps inside of branches are not indented, because an indented command line behind an entry would
be a command of that entry. A blank line ends a choice, so that two choices in a row stay two. The
time limit of a choice stands at each of its entries. How a number is written is left to the caller.
-/

namespace Dialogue

/-! ### Commands -/

/-- A text in the brackets of command lines. -/
def commandLine (body : List Char) : List Char := '<' :: '<' :: body ++ ['>', '>']

/-- What stands on the right of a `set` for a value. Nothing is escaped between the quotes of a
string, which reach from the first character to the last one. -/
def Value.setText (numeral : Float → List Char) : Value → List Char
  | .bool true => ['t', 'r', 'u', 'e']
  | .bool false => ['f', 'a', 'l', 's', 'e']
  | .number x => numeral x
  | .string s => '"' :: s.toList ++ ['"']
  | .null => ['n', 'u', 'l', 'l']

/-- The body of a command line. -/
def Command.render (numeral : Float → List Char) : Command → List Char
  | .jump target => "jump ".toList ++ target.toList
  | .set name v => "set ".toList ++ name.toList ++ " = ".toList ++ v.setText numeral

@[simp] theorem Command.render_jump (numeral : Float → List Char) (target : String) :
    (Command.jump target).render numeral = "jump ".toList ++ target.toList := rfl

@[simp] theorem Command.render_set (numeral : Float → List Char) (name : String) (v : Value) :
    (Command.set name v).render numeral =
      "set ".toList ++ name.toList ++ " = ".toList ++ v.setText numeral := rfl

/-! ### Choices -/

/-- A tag with what it holds, and the space before it. -/
def tagText (keyword body : List Char) : List Char :=
  " [".toList ++ keyword ++ ' ' :: body ++ [']']

/-- The lines of an entry under the time limit of its choice. -/
def Entry.render (numeral : Float → List Char) (timeLimit : Option Float) (e : Entry) :
    List (List Char) :=
  let condition := (e.condition.map fun c => tagText ['i', 'f'] c.toList).getD []
  let time := (timeLimit.map fun t => tagText ['t', 'i', 'm', 'e'] (numeral t)).getD []
  ("-> ".toList ++ e.text.toList ++ condition ++ time) ::
    e.commands.map fun c => List.replicate 4 ' ' ++ commandLine (c.render numeral)

/-- The lines of a choice. -/
def Choice.render (numeral : Float → List Char) (c : Choice) : List (List Char) :=
  c.entries.flatMap (Entry.render numeral c.timeLimit) ++ [[]]

/-! ### Steps and nodes -/

mutual
/-- The lines of a step. -/
def Step.render (numeral : Float → List Char) : Step → List (List Char)
  | .line text _ => [text.toList]
  | .choice c => c.render numeral
  | .command c _ => [commandLine (c.render numeral)]
  | .branch condition thenSteps elseSteps _ =>
    commandLine ("if ".toList ++ condition.toList) :: Step.renderAll numeral thenSteps
      ++ commandLine "else".toList :: Step.renderAll numeral elseSteps
      ++ [commandLine "endif".toList]

/-- The lines of some steps. -/
def Step.renderAll (numeral : Float → List Char) : List Step → List (List Char)
  | [] => []
  | s :: rest => s.render numeral ++ Step.renderAll numeral rest
end

/-- The lines of a node. -/
def Node.render (numeral : Float → List Char) (n : Node) : List (List Char) :=
  ("title: ".toList ++ n.name.toList) :: "---".toList :: Step.renderAll numeral n.steps
    ++ ["===".toList]

/-- The text of a script with some nodes, a line feed behind every line. -/
def renderScript (numeral : Float → List Char) (nodes : List Node) : List Char :=
  nodes.flatMap fun n => (n.render numeral).flatMap fun line => line ++ ['\n']

end Dialogue
