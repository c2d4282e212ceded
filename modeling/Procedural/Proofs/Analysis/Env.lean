import Procedural.Proofs.Rules.Names
import Procedural.Typing.Stmt

/-! # The environment of a context

A context stands for an environment of the rules: its scopes for the names in force, the number of
loops for being inside one. `Context.bindAll` adds bindings whose names are fresh, and does for
contexts what `Env.declareAll` does for environments. -/

namespace Procedural

open Rules

/-! ## What bindings declare -/

/-- What a declared thing stands for in the rules. -/
def Entity.meaning (e : Entity) : Meaning := if e.isValue then .place e.ty else .func e.ty

/-- What a name means has the type of what is declared. -/
@[simp] theorem Entity.ty_meaning (e : Entity) : e.meaning.ty = e.ty := by
  unfold Entity.meaning
  split <;> rfl

/-- An entity stands for a place exactly when it holds values. -/
theorem Entity.meaning_eq_place_iff {e : Entity} {t : Ty} :
    e.meaning = .place t ↔ e.isValue = true ∧ e.ty = t := by
  unfold Entity.meaning
  split <;> simp_all

/-- What a binding declares. -/
def Binding.decl (b : Binding) : Decl := (b.1, b.2.meaning)

/-- The bindings that a statement makes, other than of functions. -/
def Stmt.bindings : Stmt → List Binding
  | .var _ d => [d.binding]
  | _ => []

/-- The bindings that a sequence makes: its functions first, and then its variables. -/
def sequenceBindings (ss : List Stmt) : List Binding :=
  functionBindings ss ++ ss.flatMap Stmt.bindings

/-- The functions bound in a sequence are those that the rules declare in it. -/
@[simp] theorem map_decl_functionBindings (ss : List Stmt) :
    (functionBindings ss).map Binding.decl = functions ss := by
  rw [functionBindings, List.map_map]
  rfl

/-- The parameters bound in a function are those that the rules declare in it. -/
@[simp] theorem map_decl_params (f : FuncHeader) :
    (f.params.map Param.binding).map Binding.decl = parameters f := by
  rw [List.map_map]
  rfl

/-- The variable bound by a statement is the one that the rules declare. -/
@[simp] theorem map_decl_bindings (s : Stmt) : s.bindings.map Binding.decl = places s := by
  cases s <;> rfl

/-! ## Scopes -/

/-- What the names declared in a frame stand for. -/
def Frame.meanings (f : Frame) : Rules.Frame := fun x => (f.lookup x).map Entity.meaning

namespace Scopes

/-- The names in force. -/
def names (s : Scopes) : Names :=
  ⟨s.innermost.meanings, (s.locals ++ [s.globals]).tail.map Frame.meanings⟩

/-- The scopes with one more binding in the innermost frame. -/
def bind (s : Scopes) (b : Binding) : Scopes := s.withInnermost (b :: s.innermost)

/-- The innermost frame comes first. -/
theorem innermost_cons_tail (s : Scopes) :
    s.innermost :: (s.locals ++ [s.globals]).tail = s.locals ++ [s.globals] := by
  obtain ⟨globals, locals⟩ := s
  cases locals <;> rfl

/-- A new scope is a new frame of names. -/
theorem names_push (s : Scopes) : s.push.names = s.names.push := by
  have h : s.push.names.outer = (s.locals ++ [s.globals]).map Frame.meanings := rfl
  rw [← innermost_cons_tail, List.map_cons] at h
  exact congrArg (Names.mk _) h

/-- A new binding is a new declaration. -/
theorem names_bind (s : Scopes) (b : Binding) :
    (s.bind b).names = s.names.declare b.1 b.2.meaning := by
  obtain ⟨x, e⟩ := b
  -- the new binding comes first in its frame, so it hides an older one of the same name
  have hinner : Frame.meanings ((x, e) :: s.innermost) =
      Function.update s.innermost.meanings x (some e.meaning) := by
    funext y
    by_cases h : y = x
    · subst h
      simp [Frame.meanings]
    · have hb : (y == x) = false := by simpa using h
      simp [Frame.meanings, List.lookup_cons, hb, h]
  have houter : ((s.bind (x, e)).locals ++ [(s.bind (x, e)).globals]).tail =
      (s.locals ++ [s.globals]).tail := by
    obtain ⟨globals, locals⟩ := s
    cases locals <;> rfl
  rw [names, houter, bind, innermost_withInnermost, hinner]
  rfl

/-- A name stands in the rules for what it was declared to be. -/
theorem lookup_names (s : Scopes) (x : String) :
    s.names.lookup x = (s.lookup x).map Entity.meaning := by
  have hframes : s.names.inner :: s.names.outer = (s.locals ++ [s.globals]).map Frame.meanings := by
    rw [← innermost_cons_tail, List.map_cons]
    rfl
  rw [Names.lookup, hframes, Scopes.lookup]
  -- both sides look through the same frames in the same order
  induction s.locals ++ [s.globals] with
  | nil => rfl
  | cons f fs ih =>
    rw [List.map_cons, List.findSome?_cons, List.findSome?_cons, ih, Frame.meanings]
    cases f.lookup x <;> rfl

/-- A name is fresh when the innermost frame does not declare it. -/
theorem fresh_names {s : Scopes} {x : String} :
    s.names.Fresh x ↔ s.lookupLocal x = none := by
  show (s.innermost.lookup x).map Entity.meaning = none ↔ _
  rw [Option.map_eq_none_iff]
  rfl

end Scopes

/-! ## Contexts -/

namespace Context

/-- The context in a new scope. -/
def push (ctx : Context) : Context := { ctx with scopes := ctx.scopes.push }

/-- The context one loop deeper. -/
def inside (ctx : Context) : Context := { ctx with loops := ctx.loops + 1 }

/-- The context in the body of a function. -/
def enter (ctx : Context) (result : Ty) : Context := { ctx with returns := some result, loops := 0 }

/-- The context with one more binding in the innermost scope. -/
def bind (ctx : Context) (b : Binding) : Context := { ctx with scopes := ctx.scopes.bind b }

/-- The context with more bindings in the innermost scope. -/
def bindAll (ctx : Context) (bs : List Binding) : Context := bs.foldl bind ctx

/-- The environment that the context stands for. -/
def env (ctx : Context) : Env := ⟨ctx.scopes.names, ctx.isInLoop, ctx.returns⟩

/-- No binding changes nothing. -/
@[simp] theorem bindAll_nil (ctx : Context) : ctx.bindAll [] = ctx := rfl

/-- Bindings are added one after the other. -/
@[simp] theorem bindAll_cons (ctx : Context) (b : Binding) (bs : List Binding) :
    ctx.bindAll (b :: bs) = (ctx.bind b).bindAll bs := rfl

/-- Bindings in two parts. -/
theorem bindAll_append (ctx : Context) (bs bs' : List Binding) :
    ctx.bindAll (bs ++ bs') = (ctx.bindAll bs).bindAll bs' := List.foldl_append

/-- Bindings report nothing. -/
@[simp] theorem log_bindAll (ctx : Context) (bs : List Binding) :
    (ctx.bindAll bs).log = ctx.log := by
  induction bs generalizing ctx with
  | nil => rfl
  | cons b bs ih => exact ih (ctx.bind b)

/-- Bindings do not change the loops. -/
@[simp] theorem loops_bindAll (ctx : Context) (bs : List Binding) :
    (ctx.bindAll bs).loops = ctx.loops := by
  induction bs generalizing ctx with
  | nil => rfl
  | cons b bs ih => exact ih (ctx.bind b)

/-- Bindings do not change the result type. -/
@[simp] theorem returns_bindAll (ctx : Context) (bs : List Binding) :
    (ctx.bindAll bs).returns = ctx.returns := by
  induction bs generalizing ctx with
  | nil => rfl
  | cons b bs ih => exact ih (ctx.bind b)

/-- Leaving a scope forgets what was bound in it. -/
@[simp] theorem pop?_bindAll (ctx : Context) (bs : List Binding) :
    (ctx.push.bindAll bs).scopes.pop? = some ctx.scopes := by
  -- a binding changes the innermost frame, so the induction is over all innermost frames
  suffices h : ∀ f : Frame, ∀ c : Context,
      c.scopes = ⟨ctx.scopes.globals, f :: ctx.scopes.locals⟩ →
      (c.bindAll bs).scopes.pop? = some ctx.scopes from h [] ctx.push rfl
  induction bs with
  | nil =>
    intro f c hc
    rw [bindAll_nil, hc]
    rfl
  | cons b bs ih =>
    intro f c hc
    refine ih (b :: f) (c.bind b) ?_
    show c.scopes.bind b = _
    rw [hc]
    rfl

/-- The names in force in a new scope. -/
@[simp] theorem env_push (ctx : Context) : ctx.push.env = ctx.env.push := by
  rw [env, Env.push, push, Scopes.names_push]
  rfl

/-- What is in force inside a loop. -/
@[simp] theorem env_inside (ctx : Context) : ctx.inside.env = ctx.env.inside := by
  simp [env, Env.inside, inside, isInLoop]

/-- What is in force inside a function. -/
@[simp] theorem env_enter (ctx : Context) (t : Ty) : (ctx.enter t).env = ctx.env.enter t := rfl

/-- Adding bindings to a context declares them in its environment. -/
@[simp] theorem env_bindAll (ctx : Context) (bs : List Binding) :
    (ctx.bindAll bs).env = ctx.env.declareAll (bs.map Binding.decl) := by
  induction bs generalizing ctx with
  | nil => rfl
  | cons b bs ih =>
    have hbind : (ctx.bind b).env = ctx.env.declareAll [b.decl] := by
      show Env.mk (ctx.scopes.bind b).names _ _ = _
      rw [Scopes.names_bind]
      rfl
    rw [bindAll_cons, ih, hbind]
    rfl

/-- After a statement, its variable is in force. -/
theorem env_bindings (ctx : Context) (s : Stmt) :
    (ctx.bindAll s.bindings).env = ctx.env.after s := by
  rw [env_bindAll, map_decl_bindings, Env.after]

/-- After a sequence, its functions and variables are in force. -/
theorem env_sequenceBindings (ctx : Context) (ss : List Stmt) :
    (ctx.bindAll (sequenceBindings ss)).env = ctx.env.afterAll ss := by
  have hvars : ∀ c : Context,
      (c.bindAll (ss.flatMap Stmt.bindings)).env = ss.foldl Env.after c.env := by
    induction ss with
    | nil => exact fun _ => rfl
    | cons s ss ih =>
      intro c
      rw [List.flatMap_cons, bindAll_append, ih, env_bindings, List.foldl_cons]
  rw [sequenceBindings, bindAll_append, hvars, env_bindAll, map_decl_functionBindings, Env.afterAll]

end Context

end Procedural
