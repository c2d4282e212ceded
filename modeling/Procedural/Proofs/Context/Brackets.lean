import Procedural.Proofs.Context.Script

/-! # Brackets are safe under any use

A scope or loop is entered and left by steps on their own or by a bracket around a script, and
scripts may mix them in any way. Still the global frame only grows (`KeepsGlobals`), and a fault is
exactly a scope or loop left that is not open. A script is **balanced** if it leaves just the scopes
and loops that it enters (`Balanced`), which is read off its text by counting those that are open.
Around a balanced script a bracket restores what it found, but a loop has no frame of its own: the
frame around it keeps what the script declares there. -/

namespace Procedural

/-! ## Frames that grow -/

namespace Scopes

variable {s t u base : Scopes} {fs : List Frame} {names names' : List String}

/-- `s.Gains names t`: the scopes `t` are `s` with more bindings of the given names in the innermost
frame. -/
structure Gains (names : List String) (s t : Scopes) : Prop where
  /-- As many scopes are in force. -/
  depth : t.depth = s.depth
  /-- The frames around the innermost one are the same. -/
  outer : t.outer = s.outer
  /-- Names keep what they stand for in the innermost frame. -/
  kept : ∀ x e, s.lookupLocal x = some e → t.lookupLocal x = some e
  /-- The innermost frame gains bindings of the given names only. -/
  gained : ∃ bs, t.innermost = bs ++ s.innermost ∧ ∀ b ∈ bs, b.1 ∈ names

/-- Scopes that do not change have gained nothing. -/
theorem Gains.refl (s : Scopes) : s.Gains names s :=
  ⟨rfl, rfl, fun _ _ he => he, [], rfl, List.forall_mem_nil _⟩

/-- What is gained in two steps. -/
theorem Gains.trans (h : s.Gains names t) (h' : t.Gains names' u) :
    s.Gains (names ++ names') u where
  depth := h'.depth.trans h.depth
  outer := h'.outer.trans h.outer
  kept x e he := h'.kept x e (h.kept x e he)
  gained := by
    obtain ⟨bs, hinner, hnames⟩ := h.gained
    obtain ⟨bs', hinner', hnames'⟩ := h'.gained
    refine ⟨bs' ++ bs, by rw [hinner', hinner, List.append_assoc], fun b hb => ?_⟩
    rcases List.mem_append.1 hb with hb | hb
    · exact List.mem_append_right _ (hnames' b hb)
    · exact List.mem_append_left _ (hnames b hb)

/-- Where only the global frame is in force, it is the one that gains. -/
theorem Gains.of_globals {globals : Frame} (h : Gains names ⟨globals, []⟩ t) :
    ∃ bs, t = ⟨bs ++ globals, []⟩ ∧ ∀ b ∈ bs, b.1 ∈ names := by
  obtain ⟨bs, hinner, hnames⟩ := h.gained
  obtain ⟨globals', locals⟩ := t
  obtain rfl : locals = [] := List.length_eq_zero_iff.1 (Nat.succ.inj h.depth)
  obtain rfl : globals' = bs ++ globals := hinner
  exact ⟨bs, rfl, hnames⟩

/-- The innermost of the local frames gains, and nothing else changes. -/
theorem Gains.of_locals {globals f : Frame} (h : Gains names ⟨globals, f :: fs⟩ t) :
    ∃ bs, t = ⟨globals, (bs ++ f) :: fs⟩ ∧ ∀ b ∈ bs, b.1 ∈ names := by
  obtain ⟨bs, hinner, hnames⟩ := h.gained
  obtain ⟨globals', locals⟩ := t
  cases locals with
  | nil => nomatch Nat.succ.inj h.depth
  | cons f' fs' =>
    obtain ⟨rfl, hglobals⟩ : fs' = fs ∧ [globals'] = [globals] := List.append_inj' h.outer rfl
    obtain rfl := List.singleton_inj.1 hglobals
    obtain rfl : f' = bs ++ f := hinner
    exact ⟨bs, rfl, hnames⟩

/-- Nothing is gained of no names. -/
theorem Gains.eq (h : s.Gains [] t) : t = s := by
  obtain ⟨globals, locals⟩ := s
  have hnil : ∀ bs : List Binding, (∀ b ∈ bs, b.1 ∈ []) → bs = [] := fun bs hbs =>
    List.eq_nil_iff_forall_not_mem.2 fun b hb => List.not_mem_nil (hbs b hb)
  cases locals with
  | nil =>
    obtain ⟨bs, rfl, hbs⟩ := h.of_globals
    rw [hnil bs hbs]
    rfl
  | cons f fs =>
    obtain ⟨bs, rfl, hbs⟩ := h.of_locals
    rw [hnil bs hbs]
    rfl

/-! ### Frames on top of others -/

/-- The scopes with more frames pushed, the last of which is the first of `fs`. -/
def stack (base : Scopes) (fs : List Frame) : Scopes := { base with locals := fs ++ base.locals }

/-- No frame on top changes nothing. -/
@[simp] theorem stack_nil (base : Scopes) : base.stack [] = base := rfl

/-- The frame on top is the first to go. -/
theorem pop?_stack (base : Scopes) (f : Frame) (fs : List Frame) :
    (base.stack (f :: fs)).pop? = some (base.stack fs) := rfl

/-- A frame on top of others gains in their place. -/
theorem Gains.of_stack {f : Frame} (h : (base.stack (f :: fs)).Gains names t) :
    ∃ f', t = base.stack (f' :: fs) := by
  obtain ⟨bs, rfl, -⟩ := h.of_locals
  exact ⟨bs ++ f, rfl⟩

end Scopes

namespace Context

variable {s : Step} {ss body : List Step} {ctx c d : Context} {names : List String}

/-- The scopes of a context that is extended gain the new names. -/
theorem Extends.gains (h : ctx.Extends names c) : ctx.scopes.Gains names c.scopes :=
  ⟨h.depth, h.outer, h.kept, h.gained⟩

/-! ## The global frame -/

/-- The global frame of `d` is that of `c`, maybe with more bindings in front, and names keep what
they stand for in it. -/
structure KeepsGlobals (c d : Context) : Prop where
  /-- No binding has gone. -/
  suffix : c.scopes.globals <:+ d.scopes.globals
  /-- No binding is hidden by a later one in the frame. -/
  lookup : ∀ x e, c.scopes.globals.lookup x = some e → d.scopes.globals.lookup x = some e

/-- A global frame that does not change is kept. -/
theorem KeepsGlobals.of_eq (h : d.scopes.globals = c.scopes.globals) : KeepsGlobals c d where
  suffix := h ▸ List.suffix_refl _
  lookup _ _ he := h ▸ he

/-- The global frame is kept over two steps if it is over each. -/
theorem KeepsGlobals.trans {e : Context} (h : KeepsGlobals c d) (h' : KeepsGlobals d e) :
    KeepsGlobals c e where
  suffix := h.suffix.trans h'.suffix
  lookup x y hy := h'.lookup x y (h.lookup x y hy)

/-- A context that is extended keeps its global frame. -/
theorem Extends.keepsGlobals (h : ctx.Extends names c) : KeepsGlobals ctx c := by
  obtain ⟨⟨globals, locals⟩, loops, returns, log⟩ := ctx
  -- only a context without local frames can gain names in the global one
  cases locals with
  | nil =>
    obtain ⟨bs, hscopes, -⟩ := h.gains.of_globals
    have hkept := h.kept
    rw [hscopes] at hkept
    constructor
    · rw [hscopes]
      exact List.suffix_append bs globals
    · rw [hscopes]
      exact hkept
  | cons f fs =>
    obtain ⟨bs, hscopes, -⟩ := h.gains.of_locals
    exact .of_eq (by rw [hscopes])

/-- Every small change keeps the bindings of the global frame. -/
theorem Change.keepsGlobals (h : Change c d) : KeepsGlobals c d := by
  cases h with
  | push | setting => exact .of_eq rfl
  | leaveScope =>
    refine .of_eq ?_
    obtain ⟨⟨globals, locals⟩, loops, returns, log⟩ := c
    cases locals <;> rfl
  | grow h => exact h.keepsGlobals

/-- All through a script, the global frame keeps its bindings. -/
theorem pairwise_keepsGlobals (ss : List Step) (ctx : Context) :
    (ctx :: passesAll ss ctx).Pairwise KeepsGlobals :=
  (course_passesAll ss ctx).pairwise (fun _ _ h => h.keepsGlobals) fun _ _ _ h h' => h.trans h'

/-! ## Balanced scripts -/

/-- What can be entered and left. -/
inductive Bracket where
  /-- A scope. -/
  | scope
  /-- A loop. -/
  | loop
deriving DecidableEq, Repr

namespace Bracket

/-- How many brackets of kind `b` are open once one of kind `b'` is entered, where `k` were. -/
def enter (b b' : Bracket) (k : Nat) : Nat := if b = b' then k + 1 else k

/-- How many brackets of kind `b` are open once one of kind `b'` is left, where `k` were; none can
be left that is not open. -/
def leave (b b' : Bracket) (k : Nat) : Option Nat :=
  if b = b' then
    match k with
    | 0 => none
    | k + 1 => some k
  else some k

/-- To leave a bracket takes one that is open. -/
theorem leave_self_iff {b : Bracket} {k k' : Nat} : b.leave b k = some k' ↔ k = k' + 1 := by
  cases k <;> simp [leave]

end Bracket

mutual

/-- How many brackets of kind `b` are open after a step, where `k` were; there is no such number if
one is left that is not open. Loops in the body of a function do not count outside. -/
def Step.level (b : Bracket) : Step → Nat → Option Nat
  | .enterScope, k => some (b.enter .scope k)
  | .exitScope, k => b.leave .scope k
  | .enterLoop, k => some (b.enter .loop k)
  | .exitLoop, k => b.leave .loop k
  | .inScope body, k => (levelAll b body (b.enter .scope k)).bind (b.leave .scope)
  | .inLoop body, k => (levelAll b body (b.enter .loop k)).bind (b.leave .loop)
  | .inFunction _ body, k => if b = .loop then some k else levelAll b body k
  | _, k => some k

/-- How many brackets of kind `b` are open after a script, where `k` were. -/
def levelAll (b : Bracket) : List Step → Nat → Option Nat
  | [], k => some k
  | s :: ss, k => (s.level b k).bind (levelAll b ss)

end

/-- The script leaves the scopes and loops that it enters, and no others. -/
def Balanced (body : List Step) : Prop := ∀ b, levelAll b body 0 = some 0

/-- A script is balanced if its scopes and its loops are. -/
theorem balanced_iff : Balanced body ↔
    levelAll .scope body 0 = some 0 ∧ levelAll .loop body 0 = some 0 := by
  refine ⟨fun h => ⟨h .scope, h .loop⟩, fun h b => ?_⟩
  cases b with
  | scope => exact h.1
  | loop => exact h.2

instance (body : List Step) : Decidable (Balanced body) := decidable_of_iff' _ balanced_iff

-- one scope in place of another is not the same scope
example : ¬Balanced [.exitScope, .enterScope] := by decide

mutual

/-- The names that a step declares in the frame on top of which `k` others are, and not in one of
those. -/
def Step.own : Step → Nat → List String
  | .inScope body, k => ownAll body (k + 1)
  | .inLoop body, k => ownAll body k
  | .inFunction _ body, k => ownAll body k
  | s, k => if k = 0 then s.declares else []

/-- The names that a script declares in the frame on top of which `k` others are. -/
def ownAll : List Step → Nat → List String
  | [], _ => []
  | s :: ss, k => s.own k ++ (s.level .scope k).elim [] (ownAll ss)

end

/-- A plain step opens and closes nothing. -/
theorem level_plain (h : s.isPlain = true) (b : Bracket) (k : Nat) : s.level b k = some k := by
  cases s <;> first | rfl | nomatch h

/-- A plain step declares its names in the frame on top. -/
theorem own_plain (h : s.isPlain = true) (k : Nat) :
    s.own k = if k = 0 then s.declares else [] := by
  cases s <;> first | rfl | nomatch h

/-! ### Loops of a balanced script -/

/-- Leaving a loop leaves one loop less. -/
theorem loops_leaveLoop {m k : Nat} (h : ctx.loops = m + (k + 1)) :
    ctx.leaveLoop.loops = m + k := by
  show ctx.loops - 1 = m + k
  rw [h]
  rfl

/-- Loops are entered and left in a script as they are counted if they are so in its steps. -/
theorem loops_afterAll_of {m k k' : Nat}
    (h : ∀ s ∈ ss, ∀ k k' ctx, s.level .loop k = some k' → ctx.loops = m + k →
      (s.after ctx).loops = m + k')
    (hlevel : levelAll .loop ss k = some k') (hloops : ctx.loops = m + k) :
    (afterAll ss ctx).loops = m + k' := by
  induction ss generalizing k ctx with
  | nil =>
    obtain rfl := Option.some.inj hlevel
    exact hloops
  | cons s ss ih =>
    obtain ⟨hs, hss⟩ := List.forall_mem_cons.1 h
    obtain ⟨k₁, hk₁, hk'⟩ := Option.bind_eq_some_iff.1 hlevel
    exact ih hss hk' (hs k k₁ ctx hk₁ hloops)

/-- Loops are entered and left in a step as they are counted. -/
theorem loops_after (s : Step) {m : Nat} (k k' : Nat) (ctx : Context)
    (hlevel : s.level .loop k = some k') (hloops : ctx.loops = m + k) :
    (s.after ctx).loops = m + k' := by
  induction s using Step.induct generalizing k k' ctx with
  -- the number of loops around the step is general, as the body of a loop starts with one more
  | plain s hs =>
    rw [level_plain hs] at hlevel
    obtain rfl := Option.some.inj hlevel
    rw [(extends_after hs ctx).loops, hloops]
  | enterScope =>
    obtain rfl := Option.some.inj hlevel
    exact hloops
  | exitScope =>
    obtain rfl := Option.some.inj hlevel
    rw [after_exitScope]
    exact hloops
  | enterLoop =>
    obtain rfl := Option.some.inj hlevel
    exact congrArg (· + 1) hloops
  | exitLoop =>
    obtain rfl := Bracket.leave_self_iff.1 hlevel
    rw [after_exitLoop]
    exact loops_leaveLoop hloops
  | inScope body ih =>
    obtain ⟨k₁, hbody, hleave⟩ := Option.bind_eq_some_iff.1 hlevel
    obtain rfl := Option.some.inj hleave
    rw [after_inScope]
    exact loops_afterAll_of ih hbody hloops
  | inLoop body ih =>
    obtain ⟨k₁, hbody, hleave⟩ := Option.bind_eq_some_iff.1 hlevel
    obtain rfl := Bracket.leave_self_iff.1 hleave
    rw [after_inLoop]
    exact loops_leaveLoop (loops_afterAll_of ih hbody (congrArg (· + 1) hloops))
  | inFunction t body ih =>
    obtain rfl := Option.some.inj hlevel
    rw [after_inFunction]
    exact hloops

/-! ### Frames of a balanced script -/

/-- The scopes of the context are `base` with `k` frames on top. -/
def Over (base : Scopes) (k : Nat) (ctx : Context) : Prop :=
  ∃ fs : List Frame, fs.length = k ∧ ctx.scopes = base.stack fs

namespace Over

variable {base : Scopes} {k : Nat}

/-- No frame is on top of the scopes themselves. -/
theorem self (ctx : Context) : Over ctx.scopes 0 ctx := ⟨[], rfl, rfl⟩

/-- Without frames on top the scopes are those below. -/
theorem eq (h : Over base 0 ctx) : ctx.scopes = base := by
  obtain ⟨fs, hlength, hscopes⟩ := h
  obtain rfl := List.length_eq_zero_iff.1 hlength
  exact hscopes

/-- A new scope is one more frame on top. -/
theorem push (h : Over base k ctx) : Over base (k + 1) ctx.push := by
  obtain ⟨fs, hlength, hscopes⟩ := h
  exact ⟨[] :: fs, congrArg (· + 1) hlength, congrArg Scopes.push hscopes⟩

/-- Leaving a scope takes a frame from the top. -/
theorem leaveScope (h : Over base (k + 1) ctx) : Over base k ctx.leaveScope := by
  obtain ⟨fs, hlength, hscopes⟩ := h
  obtain ⟨f, fs, rfl⟩ := List.exists_cons_of_length_eq_add_one hlength
  refine ⟨fs, Nat.succ.inj hlength, ?_⟩
  show ctx.scopes.pop?.getD ctx.scopes = base.stack fs
  rw [hscopes, Scopes.pop?_stack, Option.getD_some]

/-- What the innermost frame gains, `base` gains if no frame is on top of it. -/
theorem grow (h : Over base k ctx) (hext : ctx.Extends names c) :
    ∃ base', base.Gains (if k = 0 then names else []) base' ∧ Over base' k c := by
  have hgains := hext.gains
  obtain ⟨fs, rfl, hscopes⟩ := h
  rw [hscopes] at hgains
  cases fs with
  | nil => exact ⟨c.scopes, hgains, .self c⟩
  | cons f fs =>
    obtain ⟨f', hf'⟩ := hgains.of_stack
    exact ⟨base, .refl base, f' :: fs, rfl, hf'⟩

end Over

/-- Frames are pushed and popped in a script as they are counted if they are so in its steps. -/
theorem over_afterAll_of {k k' : Nat} {base : Scopes}
    (h : ∀ s ∈ ss, ∀ k k' base ctx, s.level .scope k = some k' → Over base k ctx →
      ∃ base', base.Gains (s.own k) base' ∧ Over base' k' (s.after ctx))
    (hlevel : levelAll .scope ss k = some k') (hover : Over base k ctx) :
    ∃ base', base.Gains (ownAll ss k) base' ∧ Over base' k' (afterAll ss ctx) := by
  induction ss generalizing k base ctx with
  | nil =>
    obtain rfl := Option.some.inj hlevel
    exact ⟨base, .refl base, hover⟩
  | cons s ss ih =>
    obtain ⟨hs, hss⟩ := List.forall_mem_cons.1 h
    obtain ⟨k₁, hk₁, hk'⟩ := Option.bind_eq_some_iff.1 hlevel
    obtain ⟨base₁, hgains, hover₁⟩ := hs k k₁ base ctx hk₁ hover
    obtain ⟨base', hgains', hover'⟩ := ih hss hk' hover₁
    refine ⟨base', ?_, hover'⟩
    rw [ownAll, hk₁]
    exact hgains.trans hgains'

/-- Frames are pushed and popped in a step as they are counted, and the frame on top of which they
are gains the names that the step declares in it. -/
theorem over_after (s : Step) (k k' : Nat) (base : Scopes) (ctx : Context)
    (hlevel : s.level .scope k = some k') (hover : Over base k ctx) :
    ∃ base', base.Gains (s.own k) base' ∧ Over base' k' (s.after ctx) := by
  induction s using Step.induct generalizing k k' base ctx with
  -- the base is general, as a script inside may declare names in its innermost frame
  | plain s hs =>
    rw [level_plain hs] at hlevel
    obtain rfl := Option.some.inj hlevel
    rw [own_plain hs]
    exact hover.grow (extends_after hs ctx)
  | enterScope =>
    obtain rfl := Option.some.inj hlevel
    exact ⟨base, .refl base, hover.push⟩
  | exitScope =>
    obtain rfl := Bracket.leave_self_iff.1 hlevel
    rw [after_exitScope]
    exact ⟨base, .refl base, hover.leaveScope⟩
  | enterLoop =>
    obtain rfl := Option.some.inj hlevel
    exact ⟨base, .refl base, hover⟩
  | exitLoop =>
    obtain rfl := Option.some.inj hlevel
    rw [after_exitLoop]
    exact ⟨base, .refl base, hover⟩
  | inScope body ih =>
    obtain ⟨k₁, hbody, hleave⟩ := Option.bind_eq_some_iff.1 hlevel
    obtain rfl := Bracket.leave_self_iff.1 hleave
    rw [after_inScope]
    -- what the body declares above the new frame is gone with it
    obtain ⟨base', hgains, hover'⟩ := over_afterAll_of ih hbody hover.push
    exact ⟨base', hgains, hover'.leaveScope⟩
  | inLoop body ih =>
    obtain ⟨k₁, hbody, hleave⟩ := Option.bind_eq_some_iff.1 hlevel
    obtain rfl := Option.some.inj hleave
    rw [after_inLoop]
    exact over_afterAll_of ih hbody hover
  | inFunction t body ih =>
    rw [after_inFunction]
    exact over_afterAll_of ih hlevel hover

/-! ### Result types -/

/-- The result type is after a script what it was before if the steps leave it as it was. -/
theorem returns_afterAll_of (h : ∀ s ∈ ss, ∀ ctx, (s.after ctx).returns = ctx.returns)
    (ctx : Context) : (afterAll ss ctx).returns = ctx.returns := by
  induction ss generalizing ctx with
  | nil => rfl
  | cons s ss ih =>
    obtain ⟨hs, hss⟩ := List.forall_mem_cons.1 h
    exact (ih hss (s.after ctx)).trans (hs ctx)

/-- No step changes the result type. -/
theorem returns_after (s : Step) (ctx : Context) : (s.after ctx).returns = ctx.returns := by
  induction s using Step.induct generalizing ctx with
  | plain s hs => exact (extends_after hs ctx).returns
  | enterScope => rfl
  | exitScope => rw [after_exitScope]; rfl
  | enterLoop => rfl
  | exitLoop => rw [after_exitLoop]; rfl
  | inScope body ih =>
    rw [after_inScope]
    exact returns_afterAll_of ih ctx.push
  | inLoop body ih =>
    rw [after_inLoop]
    exact returns_afterAll_of ih ctx.inside
  | inFunction t body ih => rw [after_inFunction]

/-- A script leaves the result type as it was. -/
theorem returns_afterAll (ss : List Step) (ctx : Context) :
    (afterAll ss ctx).returns = ctx.returns :=
  returns_afterAll_of (fun s _ => returns_after s) ctx

/-! ## Faults -/

/-- Leaving a scope is a fault exactly in the global scope. -/
theorem faultsExactly_exitScope :
    FaultsExactly exitScope .unmatchedExitScope fun ctx => ctx.scopes.depth = 1 :=
  faultsExactly_of_eq exitScope_eq

/-- Leaving a loop is a fault exactly outside every loop. -/
theorem faultsExactly_exitLoop :
    FaultsExactly exitLoop .unmatchedExitLoop fun ctx => ctx.loops = 0 :=
  faultsExactly_of_eq exitLoop_eq

/-- A scope around a script is a fault exactly where leaving it is one after the script. -/
theorem inScope_error_iff {g : Fault} : (Step.inScope body).perform ctx = .error g c ↔
    exitScope (afterAll body ctx.push) = .error g c := by
  obtain ⟨rs, hrun⟩ := perform_inScope body ctx
  rw [hrun, exitScope_eq]
  split <;> simp

/-- A loop around a script is a fault exactly where leaving it is one after the script. -/
theorem inLoop_error_iff {g : Fault} : (Step.inLoop body).perform ctx = .error g c ↔
    exitLoop (afterAll body ctx.inside) = .error g c := by
  obtain ⟨rs, hrun⟩ := perform_inLoop body ctx
  rw [hrun, exitLoop_eq]
  split <;> simp

/-! ## What brackets restore -/

/-- The bracket ends without a fault, with as many loops and the same result type as it began with,
and in scopes of which `p` holds. -/
def Step.Restores (s : Step) (ctx : Context) (p : Scopes → Prop) : Prop :=
  ∃ rs c, s.perform ctx = .ok (.records rs) c ∧ p c.scopes ∧ c.loops = ctx.loops ∧
    c.returns = ctx.returns

/-- Whatever script is run in a function, the loops and the result type are restored. -/
theorem restores_inFunction (t : Ty) (body : List Step) (ctx : Context) :
    (Step.inFunction t body).Restores ctx fun _ => True := by
  obtain ⟨rs, hrun⟩ := perform_inFunction t body ctx
  exact ⟨rs, _, hrun, trivial, rfl, rfl⟩

/-- After a balanced script as many loops are entered as before it. -/
theorem Balanced.loops (h : Balanced body) (ctx : Context) :
    (afterAll body ctx).loops = ctx.loops :=
  loops_afterAll_of (fun s _ => loops_after s) (h .loop) rfl

/-- After a balanced script the scopes are those before it, with what the script declares in the
innermost one. -/
theorem Balanced.gains (h : Balanced body) (ctx : Context) :
    ctx.scopes.Gains (ownAll body 0) (afterAll body ctx).scopes := by
  obtain ⟨base, hgains, hover⟩ :=
    over_afterAll_of (fun s _ => over_after s) (h .scope) (.self ctx)
  rwa [hover.eq]

/-- Around a balanced script a scope restores everything. -/
theorem Balanced.restores_inScope (h : Balanced body) (ctx : Context) :
    (Step.inScope body).Restores ctx (· = ctx.scopes) := by
  obtain ⟨rs, hrun⟩ := perform_inScope body ctx
  -- what is on top at the end is the frame that was pushed, so there is one to pop
  obtain ⟨f, hf⟩ : ∃ f, (afterAll body ctx.push).scopes = ctx.scopes.stack [f] :=
    (h.gains ctx.push).of_stack
  have hdepth : (afterAll body ctx.push).scopes.depth ≠ 1 := by
    rw [hf]
    exact Nat.succ_ne_succ_iff.2 (Nat.succ_ne_zero _)
  rw [if_neg hdepth] at hrun
  refine ⟨rs, _, hrun, ?_, h.loops ctx.push, returns_afterAll body ctx.push⟩
  show (afterAll body ctx.push).scopes.pop?.getD (afterAll body ctx.push).scopes = ctx.scopes
  rw [hf, Scopes.pop?_stack, Scopes.stack_nil, Option.getD_some]

/-- Around a balanced script a loop restores everything but the innermost frame, which has gained
what the script declares in it. -/
theorem Balanced.restores_inLoop (h : Balanced body) (ctx : Context) :
    (Step.inLoop body).Restores ctx (ctx.scopes.Gains (ownAll body 0)) := by
  obtain ⟨rs, hrun⟩ := perform_inLoop body ctx
  have hloops : (afterAll body ctx.inside).loops = ctx.loops + 1 := h.loops ctx.inside
  rw [if_neg (by rw [hloops]; exact Nat.succ_ne_zero _)] at hrun
  refine ⟨rs, _, hrun, h.gains ctx.inside, ?_, returns_afterAll body ctx.inside⟩
  show (afterAll body ctx.inside).loops - 1 = ctx.loops
  rw [hloops, Nat.add_sub_cancel]

/-- Brackets are safe under any use. To leave a scope is a fault exactly if only the global one is
there, and to leave a loop is one exactly outside every loop; both leave the context as it is, also
at the end of a bracket. So every script runs to its end on a new context, never without a scope on
its way, and bindings of the global frame stay to the end as they are. A function restores the loops
and the result type whatever is in its body. Around a balanced script a scope or loop restores the
loops, the result type and the frames; only the innermost frame around a loop gains the names that
the script declares in it. -/
theorem brackets_are_safe :
    FaultsExactly exitScope .unmatchedExitScope (fun ctx => ctx.scopes.depth = 1) ∧
    FaultsExactly exitLoop .unmatchedExitLoop (fun ctx => ctx.loops = 0) ∧
    (∀ body ctx g c, (Step.inScope body).perform ctx = .error g c ↔
      exitScope (afterAll body ctx.push) = .error g c) ∧
    (∀ body ctx g c, (Step.inLoop body).perform ctx = .error g c ↔
      exitLoop (afterAll body ctx.inside) = .error g c) ∧
    (∀ script, (∃ rs, performAll script initial = .ok rs (afterAll script initial)) ∧
      (∀ c ∈ initial :: passesAll script initial, 1 ≤ c.scopes.depth) ∧
      (initial :: passesAll script initial).Pairwise KeepsGlobals) ∧
    (∀ t body ctx, (Step.inFunction t body).Restores ctx fun _ => True) ∧
    ∀ body, Balanced body → ∀ ctx : Context,
      (Step.inScope body).Restores ctx (· = ctx.scopes) ∧
      (Step.inLoop body).Restores ctx fun scopes =>
        ctx.scopes.Gains (ownAll body 0) scopes ∧ (ownAll body 0 = [] → scopes = ctx.scopes) := by
  refine ⟨faultsExactly_exitScope, faultsExactly_exitLoop, fun _ _ _ _ => inScope_error_iff,
    fun _ _ _ _ => inLoop_error_iff, fun script => ⟨performAll_ok script initial, fun c _ => ?_,
      pairwise_keepsGlobals script initial⟩, restores_inFunction, fun body hbody ctx =>
    ⟨hbody.restores_inScope ctx, ?_⟩⟩
  · exact Nat.le_add_left 1 _
  · obtain ⟨rs, c, hrun, hgains, hrest⟩ := hbody.restores_inLoop ctx
    refine ⟨rs, c, hrun, ⟨hgains, fun hown => ?_⟩, hrest⟩
    rw [hown] at hgains
    exact hgains.eq

/-- A script that enters a scope and a loop, leaves the scope before the loop, and has a function
with other loops in between. -/
theorem safe_interleaved :
    let body : List Step := [.enterScope, .declare "x" ⟨.var, .int, ⟨0, 1⟩⟩, .enterLoop,
      .exitScope, .inFunction .int [.exitLoop, .enterLoop], .exitLoop]
    Balanced body ∧ ownAll body 0 = [] ∧ 1 ≤ initial.scopes.depth ∧
      (Step.inScope body).Restores initial (· = initial.scopes) ∧
      (Step.inLoop body).Restores initial (· = initial.scopes) := by
  intro body
  have hbody : Balanced body := by decide
  obtain ⟨-, -, -, -, hscript, -, hbalanced⟩ := brackets_are_safe
  have hdepth := (hscript body).2.1 initial List.mem_cons_self
  obtain ⟨hscope, rs, c, hrun, ⟨-, hsame⟩, hrest⟩ := hbalanced body hbody initial
  exact ⟨hbody, rfl, hdepth, hscope, rs, c, hrun, hsame rfl, hrest⟩

/-- A loop has no frame of its own: what a balanced script declares in it is declared after it. -/
theorem inLoop_keeps_declaration :
    let x : Entity := ⟨.var, .int, ⟨0, 1⟩⟩
    Balanced [.declare "x" x] ∧ ∃ rs c,
      (Step.inLoop [.declare "x" x]).perform initial = .ok (.records rs) c ∧
        initial.scopes.lookupLocal "x" = none ∧ c.scopes.lookupLocal "x" = some x ∧
        c.scopes ≠ initial.scopes := by
  intro x
  exact ⟨by decide, _, _, rfl, rfl, rfl, by decide⟩

end Context

end Procedural
