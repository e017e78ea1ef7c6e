import Dialogue.Proofs.Runner.Turn
import Dialogue.Runner.Call

/-!
# Strict runs

Looking for the next step never fails. A cursor whose node the graph does not have, or which has no
frame at all, finds no step, as if the node were finished; and a frame whose branch is not where the
frame says has no steps, as if the arm were empty. So a cursor that does not fit its graph would not
be noticed: the dialogue would end early, or pass over an arm.

A *strict* run is the same run with these three ways out closed. Where the run would take one of
them, the strict run is over, and the `Stray` says which it was. There is one definition beside each
part of a call that looks for a step or leads to one; finishing a node and having no node at all are
no strays.
-/

namespace Dialogue

/-- How a cursor can fail to fit its graph. -/
inductive Stray where
  /-- The graph has no node of the cursor's name. -/
  | noNode (name : String)
  /-- The cursor has no frame. -/
  | noFrame
  /-- There is no branch at the position that a frame gives. -/
  | noBranch (index : Nat)
  deriving DecidableEq, Repr

/-- A call that goes on with a strict one unless it has failed. -/
def Burst.andThenStrictly (b : Burst) (f : Scene → Except Stray Burst) : Except Stray Burst :=
  match b.fault with
  | some _ => .ok b
  | none => (f b.scene).map (Burst.after b.events)

/-! ## Look-ups -/

namespace Frame

/-- The steps that the innermost of some frames goes through, when every frame finds its branch. -/
def strictSteps (node : List Step) : List Frame → Except Stray (List Step)
  | [] => .ok node
  | f :: outer =>
    match f.branch with
    | none => strictSteps node outer
    | some (index, arm) =>
      match strictSteps node outer with
      | .error e => .error e
      | .ok around =>
        match around[index]? with
        | some (.branch condition thenSteps elseSteps span) =>
          .ok ((Step.branch condition thenSteps elseSteps span).arm arm)
        | _ => .error (.noBranch index)

/-- The next step under some frames, with its position and the frames behind it. There is none when
the outermost frame has run out. -/
def strictFetch (node : List Step) : List Frame → Except Stray (Option (Step × Nat × List Frame))
  | [] => .error .noFrame
  | f :: outer =>
    match strictSteps node (f :: outer) with
    | .error e => .error e
    | .ok inside =>
      match inside[f.next]? with
      | some step => .ok (some (step, f.next, { f with next := f.next + 1 } :: outer))
      | none => if outer = [] then .ok none else strictFetch node outer

end Frame

/-- The next step at a cursor, with its position and the cursor behind it. -/
def Cursor.strictFetch (g : Graph) (c : Cursor) : Except Stray (Option (Step × Nat × Cursor)) :=
  match g.get? c.node with
  | none => .error (.noNode c.node)
  | some n =>
    (Frame.strictFetch n.steps c.frames).map <| Option.map fun (step, index, frames) =>
      (step, index, { c with frames := frames })

namespace Scene

/-- The next step with its position, and the scene behind it. There is none without a node. -/
def strictFetch (g : Graph) (s : Scene) : Except Stray (Option (Step × Nat × Scene)) :=
  match s.cursor with
  | none => .ok none
  | some c =>
    (c.strictFetch g).map <| Option.map fun (step, index, c) =>
      (step, index, { s with cursor := some c })

/-! ## Calls -/

/-- Runs steps up to the next stop, at most as many as the budget says. -/
def strictAdvance (g : Graph) (limit : UInt64) (budget : Nat) (s : Scene) : Except Stray Burst :=
  match s.strictFetch g with
  | .error e => .error e
  | .ok none => .ok (.stop s.close [.dialogueEnded])
  | .ok (some (step, index, s)) =>
    match budget with
    | 0 => .ok (.fail s [] (.stepLimit limit (s.node?.getD "")))
    | budget + 1 =>
      match s.take g step index with
      | .done b => .ok b
      | .onwards s events => (s.strictAdvance g limit budget).map (Burst.after events)

def strictProceed (g : Graph) (limit : UInt64) (s : Scene) : Except Stray Burst :=
  match s.offer with
  | some _ => .ok (.stop s [])
  | none => s.strictAdvance g limit limit.toNat

def strictStart (g : Graph) (limit : UInt64) (s : Scene) (name : String) : Except Stray Burst :=
  match s.jump g name with
  | .error e => .ok (.fail s [] e)
  | .ok s => { s with offer := none, countdown := none }.strictProceed g limit

def strictChoose (g : Graph) (limit : UInt64) (s : Scene) (index : Nat) : Except Stray Burst :=
  let s := { s with countdown := none }
  match s.offer with
  | none => .ok (.stop s [])
  | some o =>
    match o.entries[index]? with
    | none => .ok (.fail s [] (.optionOutOfRange index o.entries.length))
    | some e =>
      ({ s with offer := none }.executeAll g e.commands).andThenStrictly fun s =>
        s.strictProceed g limit

def strictTick (g : Graph) (limit : UInt64) (s : Scene) (seconds : Float) : Except Stray Burst :=
  match s.countdown, s.offer with
  | none, _ => .ok (.stop s [])
  | some _, none => .ok (.stop { s with countdown := none } [])
  | some before, some o =>
    let remaining := atLeastZero (before - atLeastZero seconds)
    if remaining ≤ 0 then
      ({ s with countdown := none }.strictChoose g limit o.defaultOption.toNat).map
        (Burst.after [.timerUpdated remaining, .timerExpired])
    else .ok (.stop { s with countdown := some remaining } [.timerUpdated remaining])

end Scene

namespace Runner

/-- What a call gives when no look-up strays. The calls that do not move the dialogue look nothing
up. -/
def strictPerform (r : Runner) : Call → Except Stray Answer
  | .start name => (r.scene.strictStart r.graph r.config.stepLimit name).map r.take
  | .proceed => (r.scene.strictProceed r.graph r.config.stepLimit).map r.take
  | .choose index => (r.scene.strictChoose r.graph r.config.stepLimit index).map r.take
  | .tick seconds => (r.scene.strictTick r.graph r.config.stepLimit seconds).map r.take
  | c => .ok (r.perform c)

/-- What each of some calls gives, made one after the other, when no look-up strays. -/
def strictPerformAll (r : Runner) : List Call → Except Stray (List Answer)
  | [] => .ok []
  | c :: rest =>
    match r.strictPerform c with
    | .error e => .error e
    | .ok a => (a.runner.strictPerformAll rest).map (a :: ·)

end Runner

end Dialogue
