import Procedural.Span
import Procedural.Ty

/-! # Scopes

Names are declared in **frames**. The outermost frame, with the global declarations, is always
there; further frames are pushed and popped. A name is declared at most once in a frame, and looking
it up finds the declaration in the innermost frame that has one. -/

namespace Procedural

/-- What a name was declared as. -/
inductive Role where
  /-- A variable. -/
  | var
  /-- A parameter of a function. -/
  | param
  /-- A function. -/
  | func
deriving DecidableEq, Repr, Inhabited

/-- A declared thing. -/
structure Entity where
  /-- What it was declared as. -/
  role : Role
  /-- Its type. -/
  ty : Ty
  /-- Where it was declared. -/
  span : Span
deriving DecidableEq, Repr, Inhabited

/-- Variables and parameters hold values that can be read and assigned. -/
def Entity.isValue (e : Entity) : Bool :=
  match e.role with
  | .var | .param => true
  | .func => false

/-- A name together with what it is declared to be. -/
abbrev Binding := String × Entity

/-- The declarations of one frame. -/
abbrev Frame := List Binding

/-- The frames in force. -/
structure Scopes where
  /-- The global frame. -/
  globals : Frame
  /-- The pushed frames, innermost first. -/
  locals : List Frame
deriving DecidableEq, Repr, Inhabited

/-- A declaration was refused because the frame declares the name already. -/
structure AlreadyDefined where
  /-- Where the name is declared. -/
  previous : Span
deriving DecidableEq, Repr, Inhabited

namespace Scopes

/-- The frames of a fresh program: a global frame without declarations. -/
def empty : Scopes := ⟨[], []⟩

/-- The number of frames in force. -/
def depth (s : Scopes) : Nat := s.locals.length + 1

/-- The frame that takes declarations. -/
def innermost (s : Scopes) : Frame :=
  match s.locals with
  | [] => s.globals
  | f :: _ => f

/-- The frames with `f` in place of the innermost one. -/
def withInnermost (s : Scopes) (f : Frame) : Scopes :=
  match s.locals with
  | [] => { s with globals := f }
  | _ :: fs => { s with locals := f :: fs }

/-- The frames with a new innermost one. -/
def push (s : Scopes) : Scopes := { s with locals := [] :: s.locals }

/-- The frames without the innermost one; the global frame cannot be taken away. -/
def pop? (s : Scopes) : Option Scopes :=
  match s.locals with
  | [] => none
  | _ :: fs => some { s with locals := fs }

/-- The declaration of a name in the innermost frame. -/
def lookupLocal (s : Scopes) (x : String) : Option Entity := s.innermost.lookup x

/-- The declaration of a name in the innermost frame that has one. -/
def lookup (s : Scopes) (x : String) : Option Entity :=
  (s.locals ++ [s.globals]).findSome? (List.lookup x)

/-- Declares a name in the innermost frame, unless that frame declares it already. -/
def define (s : Scopes) (x : String) (e : Entity) : Except AlreadyDefined Scopes :=
  match s.lookupLocal x with
  | some old => .error ⟨old.span⟩
  | none => .ok (s.withInnermost ((x, e) :: s.innermost))

/-! ### What the operations do to the depth -/

/-- Popping takes back what pushing did. -/
@[simp] theorem pop?_push (s : Scopes) : s.push.pop? = some s := rfl

/-- Only a lone global frame cannot be popped. -/
theorem pop?_eq_none_iff (s : Scopes) : s.pop? = none ↔ s.depth = 1 := by
  unfold pop? depth
  cases s.locals <;> simp

/-- A changed innermost frame leaves the depth as it was. -/
@[simp] theorem depth_withInnermost (s : Scopes) (f : Frame) :
    (s.withInnermost f).depth = s.depth := by
  unfold withInnermost depth
  cases s.locals <;> simp

/-! ### What the operations do to names -/

/-- The innermost frame is the one that was put in its place. -/
@[simp] theorem innermost_withInnermost (s : Scopes) (f : Frame) :
    (s.withInnermost f).innermost = f := by
  unfold withInnermost innermost
  cases s.locals <;> rfl

/-- A name stands for its declaration in the innermost frame, and otherwise for what it stands for
in the frames around that one. -/
theorem lookup_eq_or (s : Scopes) (x : String) :
    s.lookup x = (s.lookupLocal x).or ((s.pop?).bind (·.lookup x)) := by
  obtain ⟨globals, locals⟩ := s
  cases locals with
  | nil => simp [lookup, lookupLocal, innermost, pop?]
  | cons f fs =>
    simp only [lookup, lookupLocal, innermost, pop?, List.cons_append, List.findSome?_cons,
      Option.bind_some]
    cases List.lookup x f <;> rfl

/-- A new frame declares nothing. -/
@[simp] theorem lookupLocal_push (s : Scopes) (x : String) : s.push.lookupLocal x = none := rfl

/-- Behind a new frame all names stand for what they stood for. -/
@[simp] theorem lookup_push (s : Scopes) (x : String) : s.push.lookup x = s.lookup x := by
  rw [lookup_eq_or, lookupLocal_push, pop?_push]
  rfl

end Scopes

end Procedural
