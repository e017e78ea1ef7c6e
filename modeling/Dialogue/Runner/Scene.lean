import Dialogue.Condition.Eval
import Dialogue.Runner.Cursor
import Dialogue.Runner.Event
import Dialogue.Runner.Fault

/-!
# Scenes

A scene is all that changes while a dialogue runs: the variables, the cursor, the choice on offer,
its countdown, and whether a jump has been made since the last line. The graph never changes.

A call of the host runs the scene up to the next stop and gives a `Burst`: the new scene, the events
on the way, and the fault that ended the call, if any. There are four calls:

* `start` jumps to a node and goes on from there;
* `proceed` goes on, unless a choice is on offer;
* `choose` takes an option, runs its commands and goes on;
* `tick` lets the countdown run, and takes the default option when it is over.
-/

namespace Dialogue

/-- The entries on offer, and which of them is taken when the time is over. -/
structure Offer where
  entries : List Entry
  defaultOption : UInt64
  deriving DecidableEq, Repr

/-- All that changes while a dialogue runs. -/
structure Scene where
  vars : Store
  cursor : Option Cursor
  offer : Option Offer
  countdown : Option Float
  justJumped : Bool

/-- What a call gives: the new scene, the events in their order, and the fault, if any. -/
structure Burst where
  scene : Scene
  events : List Event
  fault : Option RunFault

namespace Burst

/-- A call that comes to a stop. -/
def stop (s : Scene) (events : List Event) : Burst := ⟨s, events, none⟩

/-- A call that fails. -/
def fail (s : Scene) (events : List Event) (e : RunFault) : Burst := ⟨s, events, some e⟩

/-- A call that goes on with `f` unless it has failed. -/
def andThen (b : Burst) (f : Scene → Burst) : Burst :=
  match b.fault with
  | some _ => b
  | none => { f b.scene with events := b.events ++ (f b.scene).events }

end Burst

/-- A size of time: negative numbers, and what is not a number, count as zero. -/
def atLeastZero (x : Float) : Float := if 0 < x then x else 0

/-- Whether a condition holds, with its text in the fault. -/
def Store.check (s : Store) (condition : String) : Except RunFault Bool :=
  match s.holds condition with
  | .ok b => .ok b
  | .error e => .error (.condition condition e)

/-- Whether an entry is offered. An exclamation mark at the start of the condition turns round all
that follows it. -/
def Entry.isOffered (s : Store) (e : Entry) : Except RunFault Bool :=
  match e.condition with
  | none => .ok true
  | some condition =>
    match Text.trim condition.toList with
    | '!' :: rest => (s.check (String.ofList rest)).map (!·)
    | _ => s.check condition

/-- The entries that are offered; the first condition without a value is the fault. -/
def Entry.offered (s : Store) : List Entry → Except RunFault (List Entry)
  | [] => .ok []
  | e :: rest =>
    match e.isOffered s with
    | .error f => .error f
    | .ok b => (Entry.offered s rest).map fun es => if b then e :: es else es

namespace Scene

/-- The scene before the first call. -/
def initial : Scene := ⟨.empty, none, none, none, false⟩

instance : Inhabited Scene := ⟨initial⟩

/-- The name of the node that runs. -/
def node? (s : Scene) : Option String := s.cursor.map Cursor.node

/-- The labels of the entries on offer. -/
def options (s : Scene) : List String :=
  match s.offer with
  | none => []
  | some o => o.entries.map Entry.text

/-! ### Commands -/

/-- The scene at the start of the node of a name. -/
def jump (g : Graph) (s : Scene) (target : String) : Except RunFault Scene :=
  match g.get? target with
  | none => .error (.unknownNode target)
  | some node => .ok { s with cursor := some (.start node), justJumped := true }

/-- Runs a command. -/
def execute (g : Graph) (s : Scene) : Command → Burst
  | .jump target =>
    match s.jump g target with
    | .error e => .fail s [] e
    | .ok s => .stop s []
  | .set name v => .stop { s with vars := s.vars.set name v } [.variableChanged name v]

/-- Runs commands one after the other, up to the first that fails. -/
def executeAll (g : Graph) (s : Scene) : List Command → Burst
  | [] => .stop s []
  | c :: rest => (s.execute g c).andThen fun s => s.executeAll g rest

/-! ### Stops -/

/-- The scene without a current node. -/
def close (s : Scene) : Scene := { s with cursor := none }

/-- The scene that offers entries of a choice. -/
def withOffer (s : Scene) (c : Choice) (entries : List Entry) : Scene :=
  { s with offer := some ⟨entries, c.defaultOption⟩, countdown := c.timeLimit }

/-- The events of an offer: its labels, and its countdown if there is one. -/
def offerEvents (c : Choice) (entries : List Entry) : List Event :=
  .optionsReady (entries.map Entry.text) ::
    match c.timeLimit with
    | none => []
    | some seconds => [.timerStarted seconds]

/-- Offers the entries of a choice whose conditions hold, of which there has to be one. -/
def present (s : Scene) (c : Choice) : Burst :=
  match Entry.offered s.vars c.entries with
  | .error e => .fail s [] e
  | .ok [] => .fail s [] (.noOptions (s.node?.getD ""))
  | .ok entries => .stop (s.withOffer c entries) (offerEvents c entries)

/-! ### Running -/

/-- The next step with its position, and the scene behind it. -/
def fetch (g : Graph) (s : Scene) : Option (Step × Nat × Scene) :=
  match s.cursor with
  | none => none
  | some c =>
    (c.fetch g).map fun (step, index, c) => (step, index, { s with cursor := some c })

/-- The scene at the first step of an arm of the branch at a position of the innermost frame. -/
def enter (s : Scene) (index : Nat) (arm : Arm) : Scene :=
  { s with cursor := s.cursor.map fun c => c.enter index arm }

/-- Runs steps up to the next stop, at most as many as the budget says. `told` holds the events so
far, the latest first. -/
def advance (g : Graph) (limit : UInt64) (budget : Nat) (s : Scene) (told : List Event) : Burst :=
  match s.fetch g with
  | none => .stop s.close (told.reverse ++ [.dialogueEnded])
  | some (step, index, s) =>
    match budget with
    | 0 => .fail s told.reverse (.stepLimit limit (s.node?.getD ""))
    | budget + 1 =>
      match step with
      | .line text _ => .stop { s with justJumped := false } (told.reverse ++ [.lineReady text])
      | .choice c => { s.present c with events := told.reverse ++ (s.present c).events }
      | .command c _ =>
        match s.execute g c with
        | ⟨s, events, some e⟩ => .fail s (told.reverse ++ events) e
        | ⟨s, events, none⟩ => advance g limit budget s (events.reverse ++ told)
      | .branch condition _ _ _ =>
        match s.vars.check condition with
        | .error e => .fail s told.reverse e
        | .ok holds =>
          advance g limit budget (s.enter index (if holds then .thenArm else .elseArm)) told

/-- Goes on to the next stop. With a choice on offer there is nothing to do. -/
def proceed (g : Graph) (limit : UInt64) (s : Scene) : Burst :=
  match s.offer with
  | some _ => .stop s []
  | none => s.advance g limit limit.toNat []

/-- Jumps to a node and goes on from there. A choice on offer is dropped with its countdown; an
unknown name changes nothing. -/
def start (g : Graph) (limit : UInt64) (s : Scene) (name : String) : Burst :=
  match s.jump g name with
  | .error e => .fail s [] e
  | .ok s => { s with offer := none, countdown := none }.proceed g limit

/-- Takes an option, runs its commands and goes on. The countdown is off whatever happens; an option
that is not on offer leaves the choice on offer. -/
def choose (g : Graph) (limit : UInt64) (s : Scene) (index : Nat) : Burst :=
  let s := { s with countdown := none }
  match s.offer with
  | none => .stop s []
  | some o =>
    match o.entries[index]? with
    | none => .fail s [] (.optionOutOfRange index o.entries.length)
    | some e =>
      ({ s with offer := none }.executeAll g e.commands).andThen fun s => s.proceed g limit

/-- Lets the countdown run for some seconds. When nothing remains, the default option is taken. -/
def tick (g : Graph) (limit : UInt64) (s : Scene) (seconds : Float) : Burst :=
  match s.countdown with
  | none => .stop s []
  | some before =>
    match s.offer with
    | none => .stop { s with countdown := none } []
    | some o =>
      let remaining := atLeastZero (before - atLeastZero seconds)
      let s := { s with countdown := some remaining }
      if remaining ≤ 0 then
        let b := { s with countdown := none }.choose g limit o.defaultOption.toNat
        { b with events := .timerUpdated remaining :: .timerExpired :: b.events }
      else .stop s [.timerUpdated remaining]

end Scene

end Dialogue
