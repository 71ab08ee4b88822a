/-
The variables of a running program.  Each block and each call opens a frame of
its own above the global one.  A name means the variable of the innermost frame
that has it; the scope decides whether a function sees the frames of its caller.
-/
import Betik.Table
import Betik.Value

namespace Betik

abbrev Frame :=
  Table Value

inductive Scope
  | dynamic
  | lexical
deriving DecidableEq, Repr

/-- The global frame and the frames above it, innermost first.  For each active
call, innermost first, `bases` has the number of frames that lie between the
global one and the call's own. -/
structure Environment where
  globals : Frame
  locals : List Frame
  bases : List Nat
  scope : Scope
deriving Repr

namespace Environment

def new (scope : Scope) : Environment :=
  ⟨.empty, [], [], scope⟩

/-- The frames above the global one that can be seen.  Under lexical scope these
are the frames of the innermost call. -/
def seen (env : Environment) : List Frame :=
  match env.scope, env.bases with
  | .lexical, base :: _ => env.locals.take (env.locals.length - base)
  | _, _ => env.locals

def hidden (env : Environment) : List Frame :=
  match env.scope, env.bases with
  | .lexical, base :: _ => env.locals.drop (env.locals.length - base)
  | _, _ => []

def visible (env : Environment) : List Frame :=
  env.seen ++ [env.globals]

def getFirst? (name : String) : List Frame → Option Value
  | [] => none
  | frame :: frames =>
    match frame.get? name with
    | some value => some value
    | none => getFirst? name frames

def get? (env : Environment) (name : String) : Option Value :=
  match getFirst? name env.seen with
  | some value => some value
  | none => env.globals.get? name

def define (env : Environment) (name : String) (value : Value) : Environment :=
  match env.locals with
  | [] => { env with globals := env.globals.put name value }
  | frame :: frames => { env with locals := frame.put name value :: frames }

def assignFirst? (name : String) (value : Value) : List Frame → Option (List Frame)
  | [] => none
  | frame :: frames =>
    if frame.contains name then some (frame.put name value :: frames)
    else (assignFirst? name value frames).map (frame :: ·)

def assign? (env : Environment) (name : String) (value : Value) : Option Environment :=
  match assignFirst? name value env.seen with
  | some frames => some { env with locals := frames ++ env.hidden }
  | none =>
    if env.globals.contains name then
      some { env with globals := env.globals.put name value }
    else none

def enterBlock (env : Environment) : Environment :=
  { env with locals := .empty :: env.locals }

/-- Drops the innermost frame.  The global one stays. -/
def leaveBlock (env : Environment) : Environment :=
  { env with locals := env.locals.tail }

def enterCall (env : Environment) : Environment :=
  { env with locals := .empty :: env.locals, bases := env.locals.length :: env.bases }

/-- Drops the frames of the innermost call, however many are left of them. -/
def leaveCall (env : Environment) : Environment :=
  match env.bases with
  | [] => env
  | base :: bases =>
    { env with locals := env.locals.drop (env.locals.length - base), bases := bases }

theorem seen_append_hidden (env : Environment) : env.seen ++ env.hidden = env.locals := by
  unfold seen hidden
  split <;> simp

theorem getFirst?_append (name : String) (fs gs : List Frame) :
    getFirst? name (fs ++ gs) =
      match getFirst? name fs with
      | some value => some value
      | none => getFirst? name gs := by
  induction fs with
  | nil => rfl
  | cons f fs ih => cases h : f.get? name <;> simp [getFirst?, h, ih]

theorem get?_eq_getFirst?_visible (env : Environment) (name : String) :
    env.get? name = getFirst? name env.visible := by
  rw [visible, getFirst?_append, get?]
  cases h : env.globals.get? name <;> simp only [getFirst?, h]

@[simp] theorem leaveBlock_enterBlock (env : Environment) :
    env.enterBlock.leaveBlock = env := rfl

@[simp] theorem leaveCall_enterCall (env : Environment) :
    env.enterCall.leaveCall = env := by
  simp [enterCall, leaveCall]

end Environment
end Betik
