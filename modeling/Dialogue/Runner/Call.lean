import Dialogue.Runner.Runner

/-!
# Calls

What a host can ask of a runner, as data. `Runner.perform` does what one call asks, and
`Runner.performAll` what a list of calls asks, one after the other; so a statement about all that
can happen to a runner is one about `performAll` and all lists of calls. A call that fails does not
end the list: the host may go on after a fault.
-/

namespace Dialogue

/-- A call of a host to a runner. -/
inductive Call where
  | start (name : String)
  | proceed
  | choose (index : Nat)
  | tick (seconds : Float)
  | set (name : String) (v : Value)
  | remove (name : String)
  | clear
  | subscribe (listener : String)
  | drain
  deriving DecidableEq, Repr

namespace Runner

/-- The runner after something that tells the host nothing. -/
def quietly (r : Runner) : Answer := ⟨r, [], none⟩

/-- What a call gives. -/
def perform (r : Runner) : Call → Answer
  | .start name => r.start name
  | .proceed => r.proceed
  | .choose index => r.choose index
  | .tick seconds => r.tick seconds
  | .set name v => (r.set name v).quietly
  | .remove name => (r.withVars (r.vars.remove name)).quietly
  | .clear => (r.withVars .empty).quietly
  | .subscribe listener => (r.subscribe listener).quietly
  | .drain => r.drain.2.quietly

/-- What each of some calls gives, made one after the other. -/
def performAll (r : Runner) : List Call → List Answer
  | [] => []
  | c :: rest => r.perform c :: (r.perform c).runner.performAll rest

/-- The runner after some calls. -/
def after (r : Runner) (calls : List Call) : Runner :=
  calls.foldl (fun r c => (r.perform c).runner) r

/-- Calls made in two parts lead to where they lead when made in one. -/
theorem after_append (r : Runner) (first second : List Call) :
    r.after (first ++ second) = (r.after first).after second :=
  List.foldl_append

end Runner

end Dialogue
