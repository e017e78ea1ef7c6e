import Dialogue.Script.Fault

/-!
# Reading scripts line by line

A script is read in one pass over its lines. What has been read so far is a `Draft`: the finished
nodes, and the place that the next line falls in. A place is outside of all nodes, between the title
of a node and its body, or in a body. In a body the draft holds the steps read so far, the branches
that are still open (innermost first), and the choice that the next line may still add to. Steps are
collected in reverse, the latest first.

    title: Name         opens a node, and closes the one before it
    ---                 opens its body
    -> label …          an entry of a choice; entries in a row make one choice
        <<command>>     indented, directly under an entry: a command of the entry
    <<if condition>>    opens a branch
    <<else>>            turns to its other arm
    <<endif>>           closes it
    <<command>>         a command
    ===                 closes the node
    anything else       a line of dialogue

`Draft.readLine` takes one line in, `Draft.finish` closes what the end of the script leaves open,
and `Graph.ofSource` is the whole reader: the fold of the one over all lines, then the other.
Reading stops at the first fault.
-/

namespace Dialogue

/-! ### Kinds of lines -/

/-- The name in a title line. -/
def titleName? (trimmed : List Char) : Option (List Char) :=
  if Text.sameIgnoringCase (trimmed.take 6) ['t', 'i', 't', 'l', 'e', ':'] then
    some (Text.trim (trimmed.drop 6))
  else none

/-- Whether a line opens the body of a node. -/
def isFence (trimmed : List Char) : Bool := trimmed == ['-', '-', '-']

/-- Whether a line closes a node. -/
def isClose (trimmed : List Char) : Bool := trimmed == ['=', '=', '=']

/-- The blanks before the arrow of an entry line and the text behind it. -/
def arrow? (line : List Char) : Option (List Char × List Char) :=
  match line.dropWhile Text.isBlank with
  | '-' :: '>' :: rest => some (line.takeWhile Text.isBlank, rest)
  | _ => none

/-- Whether a line is indented: by four spaces or a tab. -/
def isIndented : List Char → Bool
  | '\t' :: _ => true
  | ' ' :: ' ' :: ' ' :: ' ' :: _ => true
  | _ => false

/-- Whether the body of a command line is the word `else`. -/
def isElse (body : List Char) : Bool := Text.sameIgnoringCase body ['e', 'l', 's', 'e']

/-- Whether the body of a command line is the word `endif`. -/
def isEndif (body : List Char) : Bool := Text.sameIgnoringCase body ['e', 'n', 'd', 'i', 'f']

/-! ### Drafts -/

/-- A choice that may still grow, its entries in reverse. -/
structure ChoiceDraft where
  span : Span
  entries : List Entry
  timeLimit : Option Float

/-- A branch that is not closed yet, the steps of its arms in reverse. -/
structure BranchDraft where
  condition : String
  span : Span
  thenSteps : List Step
  elseSteps : List Step
  inElse : Bool

/-- The body of a node that is not closed yet, its steps in reverse. -/
structure BodyDraft where
  name : String
  span : Span
  steps : List Step
  branches : List BranchDraft
  choice : Option ChoiceDraft

/-- Where the next line of a script falls. -/
inductive Place where
  | outside
  | header (name : String) (span : Span)
  | body (b : BodyDraft)

/-- What has been read of a script. -/
structure Draft where
  graph : Graph
  place : Place

/-- A fault with its place. -/
abbrev PlacedFault := ScriptFault × Span

/-- The span of the line of a number. -/
def lineSpan (number : Nat) (line : List Char) : Span := .wholeLine (.ofNat number) line

namespace ChoiceDraft

/-- The choice step of a draft. The first entry offered is the default. -/
def close (c : ChoiceDraft) : Step := .choice ⟨c.entries.reverse, c.timeLimit, 0, c.span⟩

/-- The shorter of two time limits, and of equal ones the later; zero and minus zero are equal and
yet told apart. -/
def shorter (limit : Option Float) (seconds : Option Float) : Option Float :=
  match limit, seconds with
  | some x, some y => some (if x < y then x else y)
  | some x, none => some x
  | none, y => y

/-- The draft with one more entry. -/
def addEntry (c : ChoiceDraft) (e : EntryText) (span : Span) : ChoiceDraft :=
  { c with
    entries := ⟨String.ofList e.label, e.condition.map String.ofList, [], span⟩ :: c.entries
    timeLimit := shorter c.timeLimit e.seconds }

/-- The draft with one more command under its latest entry. -/
def addCommand (c : ChoiceDraft) (command : Command) : ChoiceDraft :=
  match c.entries with
  | [] => c
  | e :: entries => { c with entries := { e with commands := e.commands ++ [command] } :: entries }

end ChoiceDraft

namespace BranchDraft

/-- The draft with one more step in its current arm. -/
def push (b : BranchDraft) (s : Step) : BranchDraft :=
  if b.inElse then { b with elseSteps := s :: b.elseSteps }
  else { b with thenSteps := s :: b.thenSteps }

/-- The branch step of a draft. -/
def close (b : BranchDraft) : Step :=
  .branch b.condition b.thenSteps.reverse b.elseSteps.reverse b.span

end BranchDraft

namespace BodyDraft

/-- The empty body of a node. -/
def start (name : String) (span : Span) : BodyDraft := ⟨name, span, [], [], none⟩

/-- The body with one more step, in the innermost open branch if there is one. -/
def push (b : BodyDraft) (s : Step) : BodyDraft :=
  match b.branches with
  | [] => { b with steps := s :: b.steps }
  | top :: outer => { b with branches := top.push s :: outer }

/-- The body with its choice closed. -/
def settle (b : BodyDraft) : BodyDraft :=
  match b.choice with
  | none => b
  | some c => { b with choice := none }.push c.close

/-- The node of a body whose choice is closed. -/
def toNode (b : BodyDraft) : Node := ⟨b.name, b.steps.reverse, b.span⟩

/-! ### Choices -/

/-- The entry behind an arrow. A fault is shown at its tag. -/
def readEntry (number : Nat) (before rest : List Char) : Except PlacedFault EntryText :=
  match EntryText.ofText rest with
  | .ok e => .ok e
  | .error e =>
    .error (.tag e, .point (.ofNat number) (.ofNat (before.length + 2 + e.offset rest + 1)))

/-- The command of an indented command line under an entry. Only the words that turn and close
branches do not belong to the entry. -/
def optionCommand? (line : List Char) : Option (List Char) :=
  if isIndented line then
    (commandBody? line).filter fun body => !(isElse body || isEndif body)
  else none

/-- The command that an entry runs. -/
def readOptionCommand (number : Nat) (line body : List Char) : Except PlacedFault Command :=
  if (ifCondition? body).isSome then .error (.ifUnderOption, lineSpan number line)
  else
    match Command.ofText body with
    | .ok c => .ok c
    | .error e => .error (.optionCommand e, lineSpan number line)

/-- Adds a line to the open choice `c`: an entry, or a command of the latest entry. Any other line
is not for the choice. -/
def readInChoice (b : BodyDraft) (c : ChoiceDraft) (number : Nat) (line : List Char) :
    Except PlacedFault (Option BodyDraft) :=
  match arrow? line with
  | some (before, rest) =>
    (readEntry number before rest).map fun e =>
      some { b with choice := some (c.addEntry e (lineSpan number line)) }
  | none =>
    match optionCommand? line with
    | some body =>
      (readOptionCommand number line body).map fun command =>
        some { b with choice := some (c.addCommand command) }
    | none => .ok none

/-! ### Steps -/

/-- Opens a branch. -/
def openBranch (b : BodyDraft) (condition : List Char) (span : Span) : BodyDraft :=
  { b with branches := ⟨String.ofList condition, span, [], [], false⟩ :: b.branches }

/-- Adds a command line that neither turns nor closes a branch. -/
def readPlainCommand (b : BodyDraft) (number : Nat) (line body : List Char) :
    Except PlacedFault BodyDraft :=
  match ifCondition? body with
  | some condition => .ok (b.openBranch condition (lineSpan number line))
  | none =>
    match Command.ofText body with
    | .ok c => .ok (b.push (.command c (lineSpan number line)))
    | .error e => .error (.command e, lineSpan number line)

/-- Adds a command line to a body without an open choice. Outside of branches the words that turn
and close them are commands like others. -/
def readCommandLine (b : BodyDraft) (number : Nat) (line body : List Char) :
    Except PlacedFault BodyDraft :=
  match b.branches, isElse body, isEndif body with
  | top :: outer, true, _ => .ok { b with branches := { top with inElse := true } :: outer }
  | top :: outer, false, true => .ok ({ b with branches := outer }.push top.close)
  | _, _, _ => b.readPlainCommand number line body

/-- Adds a line that is not blank to a body without an open choice. -/
def readStep (b : BodyDraft) (number : Nat) (line : List Char) : Except PlacedFault BodyDraft :=
  match arrow? line with
  | some (before, rest) =>
    (readEntry number before rest).map fun e =>
      let span := lineSpan number line
      { b with choice := some (ChoiceDraft.addEntry ⟨span, [], none⟩ e span) }
  | none =>
    match commandBody? line with
    | some body => b.readCommandLine number line body
    | none =>
      .ok (b.push (.line (String.ofList (Text.trimEnd line)) (lineSpan number line)))

end BodyDraft

namespace Draft

/-- The draft before the first line. -/
def start : Draft := ⟨.empty, .outside⟩

/-- The draft outside of all nodes, with the current node added to the finished ones. A branch that
is still open is a fault, shown where it was opened. -/
def closeNode (d : Draft) (fault : ScriptFault) : Except PlacedFault Draft :=
  match d.place with
  | .outside => .ok d
  | .header name span => .ok ⟨d.graph.insert ⟨name, [], span⟩, .outside⟩
  | .body b =>
    match b.branches with
    | [] => .ok ⟨d.graph.insert b.toNode, .outside⟩
    | top :: _ => .error (fault, top.span)

/-- Opens the node of a title line. -/
def readTitle (d : Draft) (number : Nat) (line name : List Char) : Except PlacedFault Draft :=
  match d.closeNode .openIfAtEndOfNode with
  | .error e => .error e
  | .ok closed =>
    if name = [] then .error (.emptyTitle, lineSpan number line)
    else .ok { closed with place := .header (String.ofList name) (lineSpan number line) }

/-- Whether a branch is open. -/
def inBranch (d : Draft) : Bool :=
  match d.place with
  | .body b => !b.branches.isEmpty
  | _ => false

/-- Opens the body of the current node, if it is not open. -/
def readFence (d : Draft) (number : Nat) (line : List Char) : Except PlacedFault Draft :=
  match d.place with
  | .outside => .error (.fenceWithoutTitle, lineSpan number line)
  | .header name span => .ok { d with place := .body (.start name span) }
  | .body _ => .ok d

/-- Takes in a line that is not for an open choice. Lines outside of bodies and blank lines are
passed over; a fence inside a branch is a line of dialogue. -/
def readSettled (d : Draft) (number : Nat) (line : List Char) : Except PlacedFault Draft :=
  let trimmed := Text.trim line
  match titleName? trimmed with
  | some name => d.readTitle number line name
  | none =>
    if isClose trimmed then d.closeNode .openIfAtEndOfNode
    else if isFence trimmed && !d.inBranch then d.readFence number line
    else
      match d.place with
      | .body b =>
        if trimmed = [] then .ok d
        else (b.readStep number line).map fun b => { d with place := .body b }
      | _ => .ok d

/-- The draft with the open choice closed. -/
def settle (d : Draft) : Draft :=
  match d.place with
  | .body b => { d with place := .body b.settle }
  | _ => d

/-- Takes in the next line. -/
def readLine (d : Draft) (number : Nat) (line : List Char) : Except PlacedFault Draft :=
  match d.place with
  | .body b =>
    match b.choice with
    | none => d.readSettled number line
    | some c =>
      match b.readInChoice c number line with
      | .error e => .error e
      | .ok (some b) => .ok { d with place := .body b }
      | .ok none => d.settle.readSettled number line
  | _ => d.readSettled number line

/-- Takes in lines, the first of them with the given number. -/
def readLines (d : Draft) (number : Nat) : List String → Except PlacedFault Draft
  | [] => .ok d
  | line :: rest =>
    match d.readLine number line.toList with
    | .error e => .error e
    | .ok d => d.readLines (number + 1) rest

/-- The graph of a draft whose script has ended. -/
def finish (d : Draft) : Except PlacedFault Graph :=
  (d.settle.closeNode .openIfAtEndOfScript).map Draft.graph

end Draft

/-- The graph of a source, or the report of its first fault. -/
def Graph.ofSource (s : Source) : Except Report Graph :=
  match Draft.start.readLines 1 s.lines with
  | .error (e, span) => .error (.ofFault s e span)
  | .ok d =>
    match d.finish with
    | .error (e, span) => .error (.ofFault s e span)
    | .ok g => .ok g

/-- The graph of the script that a text holds. -/
def Graph.ofText (name text : String) : Except Report Graph :=
  Graph.ofSource (.ofText name text)

end Dialogue
