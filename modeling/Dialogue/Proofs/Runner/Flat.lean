import Dialogue.Runner.Call

/-!
# Flat runs

The plain reading of how a dialogue runs. A `FlatScene` keeps one flat list of the steps that
remain: taking a step takes the head of the list, a branch puts the steps of the chosen arm in front
of it, a jump replaces it by the steps of the target, and the empty list ends the dialogue. There
are no cursors, no frames, and no look-ups but those of jumps.

This is the second side of `performAll_observe`, which says that a host cannot tell a runner from
its flat counterpart. What a host can tell of a call is its `Observation`.
-/

namespace Dialogue

/-- All that changes while a dialogue runs over a flat list of steps. -/
structure FlatScene where
  vars : Store
  node : Option String
  rest : List Step
  offer : Option Offer
  countdown : Option Float
  justJumped : Bool

/-- What a call gives. -/
structure FlatBurst where
  scene : FlatScene
  events : List Event
  fault : Option RunFault

namespace FlatBurst

def stop (s : FlatScene) (events : List Event) : FlatBurst := ⟨s, events, none⟩

def fail (s : FlatScene) (events : List Event) (e : RunFault) : FlatBurst := ⟨s, events, some e⟩

/-- The burst with some events before its own. -/
def after (events : List Event) (b : FlatBurst) : FlatBurst :=
  { b with events := events ++ b.events }

/-- A call that goes on with `f` unless it has failed. -/
def andThen (b : FlatBurst) (f : FlatScene → FlatBurst) : FlatBurst :=
  match b.fault with
  | some _ => b
  | none => (f b.scene).after b.events

end FlatBurst

namespace FlatScene

/-- The scene before the first call. -/
def initial : FlatScene := ⟨.empty, none, [], none, none, false⟩

/-- A jump replaces what remains by the steps of the target. -/
def jump (g : Graph) (s : FlatScene) (target : String) : Except RunFault FlatScene :=
  match g.get? target with
  | none => .error (.unknownNode target)
  | some n => .ok { s with node := some n.name, rest := n.steps, justJumped := true }

def execute (g : Graph) (s : FlatScene) : Command → FlatBurst
  | .jump target =>
    match s.jump g target with
    | .error e => .fail s [] e
    | .ok s => .stop s []
  | .set name v => .stop { s with vars := s.vars.set name v } [.variableChanged name v]

def executeAll (g : Graph) (s : FlatScene) : List Command → FlatBurst
  | [] => .stop s []
  | c :: rest => (s.execute g c).andThen fun s => s.executeAll g rest

/-- A choice offers the entries whose conditions hold, of which there has to be one. -/
def present (s : FlatScene) (c : Choice) : FlatBurst :=
  match Entry.offered s.vars c.entries with
  | .error e => .fail s [] e
  | .ok [] => .fail s [] (.noOptions (s.node.getD ""))
  | .ok entries =>
    .stop { s with offer := some ⟨entries, c.defaultOption⟩, countdown := c.timeLimit }
      (Scene.offerEvents c entries)

/-- Takes steps from the front of the list up to the next stop, at most as many as the budget
says. -/
def advance (g : Graph) (limit : UInt64) (budget : Nat) (s : FlatScene) : FlatBurst :=
  match s.rest with
  | [] => .stop { s with node := none } [.dialogueEnded]
  | step :: rest =>
    let s := { s with rest := rest }
    match budget with
    | 0 => .fail s [] (.stepLimit limit (s.node.getD ""))
    | budget + 1 =>
      match step with
      | .line text _ => .stop { s with justJumped := false } [.lineReady text]
      | .choice c => s.present c
      | .command c _ => (s.execute g c).andThen fun s => s.advance g limit budget
      | .branch condition thenSteps elseSteps _ =>
        match s.vars.check condition with
        | .error e => .fail s [] e
        | .ok holds =>
          { s with rest := (if holds then thenSteps else elseSteps) ++ rest }.advance g limit budget

def proceed (g : Graph) (limit : UInt64) (s : FlatScene) : FlatBurst :=
  match s.offer with
  | some _ => .stop s []
  | none => s.advance g limit limit.toNat

def start (g : Graph) (limit : UInt64) (s : FlatScene) (name : String) : FlatBurst :=
  match s.jump g name with
  | .error e => .fail s [] e
  | .ok s => { s with offer := none, countdown := none }.proceed g limit

def choose (g : Graph) (limit : UInt64) (s : FlatScene) (index : Nat) : FlatBurst :=
  let s := { s with countdown := none }
  match s.offer with
  | none => .stop s []
  | some o =>
    match o.entries[index]? with
    | none => .fail s [] (.optionOutOfRange index o.entries.length)
    | some e =>
      ({ s with offer := none }.executeAll g e.commands).andThen fun s => s.proceed g limit

def tick (g : Graph) (limit : UInt64) (s : FlatScene) (seconds : Float) : FlatBurst :=
  match s.countdown, s.offer with
  | none, _ => .stop s []
  | some _, none => .stop { s with countdown := none } []
  | some before, some o =>
    let remaining := atLeastZero (before - atLeastZero seconds)
    if remaining ≤ 0 then
      ({ s with countdown := none }.choose g limit o.defaultOption.toNat).after
        [.timerUpdated remaining, .timerExpired]
    else .stop { s with countdown := some remaining } [.timerUpdated remaining]

/-- What a call gives. Listeners and the collecting of events do not touch the scene. -/
def perform (g : Graph) (limit : UInt64) (s : FlatScene) : Call → FlatBurst
  | .start name => s.start g limit name
  | .proceed => s.proceed g limit
  | .choose index => s.choose g limit index
  | .tick seconds => s.tick g limit seconds
  | .set name v => .stop { s with vars := s.vars.set name v } []
  | .remove name => .stop { s with vars := s.vars.remove name } []
  | .clear => .stop { s with vars := .empty } []
  | .subscribe _ => .stop s []
  | .drain => .stop s []

/-- What each of some calls gives, made one after the other. -/
def performAll (g : Graph) (limit : UInt64) (s : FlatScene) : List Call → List FlatBurst
  | [] => []
  | c :: rest => s.perform g limit c :: (s.perform g limit c).scene.performAll g limit rest

end FlatScene

/-! ## What a host can tell of a call -/

/-- What a host can tell of a call: its outcome, the events it told, and afterwards the name of the
node that runs, the entries on offer with the default among them, the countdown, whether a jump has
been made since the last line, and the variables. -/
structure Observation where
  fault : Option RunFault
  events : List Event
  node : Option String
  offer : Option Offer
  countdown : Option Float
  justJumped : Bool
  vars : Store

def Answer.observe (a : Answer) : Observation :=
  let s := a.runner.scene
  ⟨a.fault, a.events, s.node?, s.offer, s.countdown, s.justJumped, s.vars⟩

def FlatBurst.observe (b : FlatBurst) : Observation :=
  let s := b.scene
  ⟨b.fault, b.events, s.node, s.offer, s.countdown, s.justJumped, s.vars⟩

end Dialogue
