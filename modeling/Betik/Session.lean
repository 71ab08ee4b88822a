/-
Sessions: one machine that is asked for one thing after another.  Whatever a step
leaves, also one that failed, the next step finds.
-/
import Betik.Script

namespace Betik
namespace Session

/-- What a session can ask of its machine.  Trees need not come from a source. -/
inductive Step
  | source (text : String)
  | program (p : Program)
  | statement (s : Stmt)
  | expression (e : Expr)

/-- The machine that a step leaves; `none` if it had not ended when its fuel ran
out. -/
def Step.leaves? (fuel : Nat) : Step → Machine → Option Machine
  | source text, m => (Betik.run fuel text m).map Prod.snd
  | program p, m => (p.run fuel m).map Prod.snd
  | statement s, m => (s.run fuel m).map Prod.snd
  | expression e, m => (e.eval fuel m).map Prod.snd

end Session

def Machine.new (scope : Scope) (callLimit : Nat) (input : Input) (sink : Sink) : Machine :=
  { environment := .new scope, callLimit := callLimit, input := input, sink := sink }

/-- The machines between the steps of a session. -/
inductive Machine.AtRest : Machine → Prop
  | new (scope : Scope) (callLimit : Nat) (input : Input) (sink : Sink) :
    AtRest (.new scope callLimit input sink)
  | step {m m' : Machine} (fuel : Nat) (step : Session.Step) (rest : m.AtRest)
    (left : step.leaves? fuel m = some m') : AtRest m'

end Betik
