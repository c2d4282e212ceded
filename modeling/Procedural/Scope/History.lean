import Procedural.Scope

/-! # Runs of scope operations

The operations on scopes as data, the answer to each, and what a run of them answers. -/

namespace Procedural.Scopes

/-- Operations on scopes. -/
inductive Op where
  /-- Push a frame. -/
  | push
  /-- Pop a frame. -/
  | pop
  /-- Declare a name in the innermost frame. -/
  | define (name : String) (entity : Entity)
  /-- Look a name up in all frames. -/
  | lookup (name : String)
  /-- Look a name up in the innermost frame. -/
  | lookupLocal (name : String)
deriving DecidableEq, Repr, Inhabited

/-- Answers to operations on scopes. -/
inductive Answer where
  /-- Nothing to say. -/
  | done
  /-- Whether a frame was popped. -/
  | popped (ok : Bool)
  /-- The declaration was made or refused. -/
  | defined (result : Except AlreadyDefined Unit)
  /-- What a name is declared to be, if it is declared. -/
  | found (entity : Option Entity)

/-- The answer to an operation and the scopes after it. -/
def step (s : Scopes) : Op → Answer × Scopes
  | .push => (.done, s.push)
  | .pop =>
    match s.pop? with
    | some t => (.popped true, t)
    | none => (.popped false, s)
  | .define x e =>
    match s.define x e with
    | .ok t => (.defined (.ok ()), t)
    | .error err => (.defined (.error err), s)
  | .lookup x => (.found (s.lookup x), s)
  | .lookupLocal x => (.found (s.lookupLocal x), s)

/-- The answers to a run of operations, each with the depth after it. -/
def answers (s : Scopes) : List Op → List (Answer × Nat)
  | [] => []
  | op :: ops => ((s.step op).1, (s.step op).2.depth) :: (s.step op).2.answers ops

/-- The scopes after a run of operations. -/
def after (s : Scopes) (ops : List Op) : Scopes :=
  ops.foldl (fun s op => (s.step op).2) s

end Procedural.Scopes
