import Procedural.Proofs.Findings.Analysis
import Mathlib.Algebra.BigOperators.Group.Multiset.Basic
import Mathlib.Tactic.Abel

/-! # The first declaration of a name wins

The analysis opens a frame for each sequence, in which a function has its parameters too, and one
for the clauses of each loop with an initializer and a step. An **opening** says which bindings such
a frame is offered, in which order. A frame takes the first binding of each name, and every other
one is reported as a duplicate of that one. The duplicates that are reported about a program are
those of its openings, whatever the order is in which the openings are come to.

* `Frame.lookup_offerAll`, `Frame.refusals_at`: what a frame keeps and what it refuses.
* `Stmt.openings`, `Stmt.declarations`: the frames of a tree and the declarations in it.
* `Program.analysis_keeps_first`: which declarations are kept and which are reported. -/

namespace Procedural

/-! ## What a frame keeps and what it refuses -/

/-- Where a binding is declared. -/
def Binding.span (b : Binding) : Span := b.2.span

namespace Frame

/-- An offered binding is found if the frame has no other of its name. -/
theorem lookup_offer (f : Frame) (b : Binding) (x : String) :
    (f.offer b).lookup x = (f.lookup x).or (List.lookup x [b]) := by
  obtain ⟨y, e⟩ := b
  rw [offer]
  by_cases hx : x = y
  · subst hx
    cases hb : f.lookup x with
    | some old => simp [hb]
    | none => simp
  · have hne : (x == y) = false := beq_eq_false_iff_ne.2 hx
    split <;> simp [List.lookup_cons, hne]

/-- The first declaration of a name stays. -/
theorem lookup_offerAll (f : Frame) (bs : List Binding) (x : String) :
    (f.offerAll bs).lookup x = (f.lookup x).or (bs.lookup x) := by
  induction bs generalizing f with
  | nil => exact (Option.or_none).symm
  | cons b bs ih =>
    rw [← List.singleton_append, offerAll_append, ih, List.lookup_append, ← Option.or_assoc]
    exact congrArg (Option.or · _) (f.lookup_offer b x)

/-- What is found in a frame is one of its bindings. -/
theorem mem_of_lookup {f : Frame} {x : String} {e : Entity} (h : f.lookup x = some e) :
    (x, e) ∈ f := by
  obtain ⟨before, after, rfl, -⟩ := List.lookup_eq_some_iff.1 h
  exact List.mem_append_right _ List.mem_cons_self

/-- A frame refuses bindings at their own places. -/
theorem span_of_mem_refusals {f : Frame} {bs : List Binding} {d : Diagnostic}
    (hd : d ∈ f.refusals bs) : ∃ b ∈ bs, d.span = some b.span := by
  induction bs generalizing f with
  | nil => cases hd
  | cons b bs ih =>
    rcases List.mem_append.1 hd with hd | hd
    · rw [refusal] at hd
      cases hb : f.lookup b.1 with
      | none =>
        rw [hb] at hd
        cases hd
      | some old =>
        rw [hb] at hd
        obtain rfl := List.mem_singleton.1 hd
        exact ⟨b, List.mem_cons_self, rfl⟩
    · obtain ⟨b', hb', hspan⟩ := ih hd
      exact ⟨b', List.mem_cons_of_mem _ hb', hspan⟩

end Frame

namespace Log

/-- The reports of duplicates at a place. -/
def duplicatesAt (log : Log) (s : Span) : Log :=
  (log.ofKind .duplicate).filter fun d => d.span = some s

/-- The duplicates at a place are picked log by log. -/
theorem duplicatesAt_append (log log' : Log) (s : Span) :
    (log ++ log').duplicatesAt s = log.duplicatesAt s ++ log'.duplicatesAt s := by
  rw [duplicatesAt, ofKind_append, List.filter_append]
  rfl

/-- Reports at the places of bindings that all stand elsewhere. -/
theorem duplicatesAt_eq_nil {log : Log} {bs : List Binding} {s : Span}
    (h : ∀ d ∈ log, ∃ b ∈ bs, d.span = some b.span) (hs : s ∉ bs.map Binding.span) :
    log.duplicatesAt s = [] := by
  refine List.filter_eq_nil_iff.2 fun d hd hspan => hs ?_
  obtain ⟨b, hb, hd⟩ := h d (List.mem_of_mem_filter hd)
  rw [hd] at hspan
  obtain rfl := Option.some.inj (of_decide_eq_true hspan)
  exact List.mem_map_of_mem hb

end Log

/-- Bindings at other places leave no duplicates at this one. -/
theorem Frame.duplicatesAt_refusals {f : Frame} {bs : List Binding} {s : Span}
    (h : s ∉ bs.map Binding.span) : (f.refusals bs).duplicatesAt s = [] :=
  Log.duplicatesAt_eq_nil (fun _ hd => span_of_mem_refusals hd) h

/-- A binding is refused at its own place. -/
theorem Frame.duplicatesAt_refusal (f : Frame) (b : Binding) :
    (f.refusal b).duplicatesAt b.span = f.refusal b := by
  rw [refusal]
  cases f.lookup b.1 with
  | none => rfl
  | some old => simp [Log.duplicatesAt, Log.ofKind, Problem.kind, Binding.span]

/-- If bindings stand at different places, then what is reported at the place of one of them is what
the frame says when that one is offered. -/
theorem Frame.refusals_at {before after : List Binding} {b : Binding}
    (h : ((before ++ b :: after).map Binding.span).Nodup) :
    (refusals [] (before ++ b :: after)).duplicatesAt b.span =
      (offerAll [] before).refusal b := by
  rw [List.map_append, List.map_cons, List.nodup_middle, List.nodup_cons, List.mem_append,
    not_or] at h
  -- the bindings before and after stand elsewhere
  obtain ⟨⟨hbefore, hafter⟩, -⟩ := h
  rw [refusals_append, refusals, Log.duplicatesAt_append, Log.duplicatesAt_append,
    duplicatesAt_refusals hbefore, duplicatesAt_refusals hafter, duplicatesAt_refusal,
    List.nil_append, List.append_nil]

/-- The first declaration of a name is not reported. -/
theorem Frame.duplicatesAt_first {bs : List Binding} {x : String} {e : Entity}
    (hnodup : (bs.map Binding.span).Nodup) (he : bs.lookup x = some e) :
    (refusals [] bs).duplicatesAt e.span = [] := by
  obtain ⟨before, after, rfl, hne⟩ := List.lookup_eq_some_iff.1 he
  have hbefore : before.lookup x = none := List.lookup_eq_none_iff.2 hne
  have hat := refusals_at hnodup
  rw [refusal, lookup_offerAll, hbefore] at hat
  exact hat

/-- Every other declaration of the name is reported as a duplicate of the first. -/
theorem Frame.duplicatesAt_other {bs : List Binding} {x : String} {e e' : Entity}
    (hnodup : (bs.map Binding.span).Nodup) (he : bs.lookup x = some e) (he' : (x, e') ∈ bs)
    (hne : e' ≠ e) :
    (refusals [] bs).duplicatesAt e'.span =
      [⟨.duplicateDeclaration x e.span, some e'.span⟩] := by
  obtain ⟨before, after, rfl⟩ := List.append_of_mem he'
  -- as this declaration is not the first one, the first one comes before it
  have hbefore : before.lookup x = some e := by
    rw [List.lookup_append, List.lookup_cons_self] at he
    cases hx : before.lookup x with
    | some old => rwa [hx] at he
    | none =>
      rw [hx] at he
      exact absurd (Option.some.inj he) hne
  have hat := refusals_at hnodup
  rw [refusal, lookup_offerAll, hbefore] at hat
  exact hat

/-! ## Openings -/

/-- What a frame is opened for. -/
inductive Opening where
  /-- A sequence, with the parameters if it is the body of a function. -/
  | sequence (params : List Param) (stmts : List Stmt)
  /-- The initializer and the step of a loop. -/
  | clauses (init step : Option Stmt)

namespace Opening

/-- The bindings that are offered to the frame: in a sequence the parameters, then the functions,
then the variables. -/
def bindings : Opening → List Binding
  | sequence params ss => params.map Param.binding ++ sequenceBindings ss
  | clauses i u => sequenceBindings i.toList ++ sequenceBindings u.toList

/-- What the frame refuses. -/
def refusals (o : Opening) : Log := Frame.refusals [] o.bindings

end Opening

mutual

/-- The frames that are opened in a statement. -/
def Stmt.openings : Stmt → List Opening
  | .func _ f ⟨ss, _⟩ => .sequence f.params ss :: Stmt.openingsAll ss
  | .block _ b | .whileLoop _ _ b => b.openings
  | .ifChain _ arms o => Arm.openingsAll arms ++ Block.openingsOpt o
  | .forLoop _ i _ u b =>
    .clauses i u :: (Stmt.openingsOpt i ++ (b.openings ++ Stmt.openingsOpt u))
  | _ => []

/-- The frames that are opened in the initializer or step of a loop. -/
def Stmt.openingsOpt : Option Stmt → List Opening
  | none => []
  | some s => s.openings

/-- The frames that are opened in the statements of a list. -/
def Stmt.openingsAll : List Stmt → List Opening
  | [] => []
  | s :: ss => s.openings ++ Stmt.openingsAll ss

/-- The frames that are opened for a block and in it. -/
def Block.openings : Block → List Opening
  | ⟨ss, _⟩ => .sequence [] ss :: Stmt.openingsAll ss

/-- The frames that are opened for a block that may be missing. -/
def Block.openingsOpt : Option Block → List Opening
  | none => []
  | some b => b.openings

/-- The frames that are opened in conditional arms. -/
def Arm.openingsAll : List Arm → List Opening
  | [] => []
  | ⟨_, b⟩ :: arms => b.openings ++ Arm.openingsAll arms

end

/-- The frames that are opened for a program and in it. -/
def Program.openings (p : Program) : List Opening :=
  .sequence [] p.stmts :: Stmt.openingsAll p.stmts

/-- What there is in openings, in no order. -/
def gather {γ : Type} (g : Opening → List γ) (os : List Opening) : Multiset γ :=
  (os.flatMap g : List γ)

section

variable {γ : Type} (g : Opening → List γ)

/-- What there is in openings is there in the first or in the others. -/
theorem gather_cons (o : Opening) (os : List Opening) :
    gather g (o :: os) = g o + gather g os :=
  (Multiset.coe_add _ _).symm

/-- What there is in two lists of openings is there in one or in the other. -/
theorem gather_append (os os' : List Opening) :
    gather g (os ++ os') = gather g os + gather g os' := by
  rw [gather, List.flatMap_append, ← Multiset.coe_add]
  rfl

end

/-! ## Every declaration is offered to a frame -/

mutual

/-- The declarations and the parameters in a statement, at any depth. -/
def Stmt.declarations : Stmt → Multiset Binding
  | .var _ d => {d.binding}
  | .func _ f b => {f.binding} + (f.params.map Param.binding : List Binding) + b.declarations
  | .block _ b | .whileLoop _ _ b => b.declarations
  | .ifChain _ arms o => Arm.declarationsAll arms + Block.declarationsOpt o
  | .forLoop _ i _ u b => Stmt.declarationsOpt i + b.declarations + Stmt.declarationsOpt u
  | _ => 0

/-- The declarations in the initializer or step of a loop. -/
def Stmt.declarationsOpt : Option Stmt → Multiset Binding
  | none => 0
  | some s => s.declarations

/-- The declarations in the statements of a list. -/
def Stmt.declarationsAll : List Stmt → Multiset Binding
  | [] => 0
  | s :: ss => s.declarations + Stmt.declarationsAll ss

/-- The declarations in a block. -/
def Block.declarations : Block → Multiset Binding
  | ⟨ss, _⟩ => Stmt.declarationsAll ss

/-- The declarations in a block that may be missing. -/
def Block.declarationsOpt : Option Block → Multiset Binding
  | none => 0
  | some b => b.declarations

/-- The declarations in conditional arms. -/
def Arm.declarationsAll : List Arm → Multiset Binding
  | [] => 0
  | ⟨_, b⟩ :: arms => b.declarations + Arm.declarationsAll arms

end

/-- The declarations and the parameters in a program. -/
def Program.declarations (p : Program) : Multiset Binding := Stmt.declarationsAll p.stmts

/-- A sequence makes the bindings of its statements, in another order. -/
theorem coe_sequenceBindings_cons (s : Stmt) (ss : List Stmt) :
    (sequenceBindings (s :: ss) : Multiset Binding) =
      sequenceBindings [s] + sequenceBindings ss := by
  have hheaders : functionBindings (s :: ss) = functionBindings [s] ++ functionBindings ss :=
    functionBindings_append [s] ss
  simp only [sequenceBindings, hheaders, List.flatMap_cons, List.flatMap_nil, List.append_nil,
    ← Multiset.coe_add]
  abel

mutual

/-- The declarations in a statement are those that the statement itself makes and those that the
frames opened in it are offered. -/
theorem Stmt.declarations_eq : ∀ s : Stmt,
    s.declarations = sequenceBindings [s] + gather Opening.bindings s.openings
  | .var _ d => (add_zero _).symm
  | .func s f ⟨ss, t⟩ => by
    -- parameters go to the frame of the body, the function itself to the frame around it
    have hself : sequenceBindings [.func s f ⟨ss, t⟩] = [f.binding] := rfl
    rw [Stmt.declarations, Block.declarations, Stmt.declarationsAll_eq ss, Stmt.openings,
      gather_cons, hself, Opening.bindings, ← Multiset.coe_add, Multiset.coe_singleton]
    abel
  | .assign _ _ _ | .call _ _ | .after _ _ _ | .jump _ _ | .ret _ _ => (add_zero _).symm
  | .block _ b => (Block.declarations_eq b).trans (zero_add _).symm
  | .ifChain _ arms o => by
    refine Eq.trans ?_ (zero_add _).symm
    rw [Stmt.declarations, Arm.declarationsAll_eq arms, Block.declarationsOpt_eq o, Stmt.openings,
      gather_append]
  | .whileLoop _ _ b => (Block.declarations_eq b).trans (zero_add _).symm
  | .forLoop _ i _ u b => by
    refine Eq.trans ?_ (zero_add _).symm
    rw [Stmt.declarations, Stmt.declarationsOpt_eq i, Block.declarations_eq b,
      Stmt.declarationsOpt_eq u, Stmt.openings, gather_cons, gather_append, gather_append,
      Opening.bindings, ← Multiset.coe_add]
    abel

/-- The initializer or step of a loop offers its own bindings to the loop's frame, and the others to
frames inside. -/
theorem Stmt.declarationsOpt_eq : ∀ o : Option Stmt,
    Stmt.declarationsOpt o =
      sequenceBindings o.toList + gather Opening.bindings (Stmt.openingsOpt o)
  | none => rfl
  | some s => Stmt.declarations_eq s

/-- A list of statements offers its own bindings to its frame, and the others to frames inside. -/
theorem Stmt.declarationsAll_eq : ∀ ss : List Stmt,
    Stmt.declarationsAll ss =
      sequenceBindings ss + gather Opening.bindings (Stmt.openingsAll ss)
  | [] => rfl
  | s :: ss => by
    rw [Stmt.declarationsAll, Stmt.declarations_eq s, Stmt.declarationsAll_eq ss,
      coe_sequenceBindings_cons s ss, Stmt.openingsAll, gather_append]
    abel

/-- The declarations in a block are offered to the frames opened for it. -/
theorem Block.declarations_eq : ∀ b : Block,
    b.declarations = gather Opening.bindings b.openings
  | ⟨ss, _⟩ => by
    rw [Block.declarations, Stmt.declarationsAll_eq ss, Block.openings, gather_cons]
    rfl

/-- The declarations in an optional block are offered to the frames opened for it. -/
theorem Block.declarationsOpt_eq : ∀ o : Option Block,
    Block.declarationsOpt o = gather Opening.bindings (Block.openingsOpt o)
  | none => rfl
  | some b => Block.declarations_eq b

/-- The declarations in conditional arms are offered to the frames opened for them. -/
theorem Arm.declarationsAll_eq : ∀ arms : List Arm,
    Arm.declarationsAll arms = gather Opening.bindings (Arm.openingsAll arms)
  | [] => rfl
  | ⟨_, b⟩ :: arms => by
    rw [Arm.declarationsAll, Block.declarations_eq b, Arm.declarationsAll_eq arms,
      Arm.openingsAll, gather_append]

end

/-- The declarations and parameters of a program are what its frames are offered. -/
theorem Program.declarations_eq (p : Program) :
    p.declarations = gather Opening.bindings p.openings := by
  rw [Program.declarations, Stmt.declarationsAll_eq, Program.openings, gather_cons]
  rfl

/-! ## Every duplicate is refused by a frame -/

/-- The reports of duplicates, in no order. -/
def Log.duplicates (log : Log) : Multiset Diagnostic := (log.ofKind .duplicate : List Diagnostic)

namespace Log

/-- The duplicates of two logs are those of one and those of the other. -/
@[simp] theorem duplicates_append (log log' : Log) :
    (log ++ log').duplicates = log.duplicates + log'.duplicates := by
  rw [duplicates, ofKind_append, ← Multiset.coe_add]
  rfl

/-- A log without reports of the kind has no duplicates. -/
theorem duplicates_eq_zero {log : Log} (h : log.ofKind .duplicate = []) : log.duplicates = 0 :=
  congrArg Multiset.ofList h

end Log

/-- All that a frame refuses is a duplicate. -/
@[simp] theorem Surroundings.duplicates_refusals (σ : Surroundings) (bs : List Binding) :
    (σ.refusals bs).duplicates = (σ.refusals bs : List Diagnostic) :=
  congrArg Multiset.ofList (σ.allOf_refusals bs).ofKind_self

/-- Nothing found about an expression is a duplicate. -/
@[simp] theorem Expr.duplicates_findings (s : Scopes) (e : Expr) :
    (e.findings s).duplicates = 0 := Log.duplicates_eq_zero (by simp)

/-- Nothing found about an optional expression is a duplicate. -/
@[simp] theorem Expr.duplicates_findingsOpt (s : Scopes) (o : Option Expr) :
    (Expr.findingsOpt s o).duplicates = 0 := Log.duplicates_eq_zero (by simp)

/-- Of two lists, the frame refuses of the second what it refuses after the first. -/
theorem coe_refusals_append (σ : Surroundings) (bs bs' : List Binding) :
    (σ.refusals (bs ++ bs') : Multiset Diagnostic) =
      σ.refusals bs + (σ.offerAll bs).refusals bs' := by
  rw [σ.refusals_append, ← Multiset.coe_add]

/-- A sequence of one statement declares its function first. -/
theorem sequenceBindings_singleton (s : Stmt) :
    sequenceBindings [s] = functionBindings [s] ++ s.bindings := by
  simp [sequenceBindings]

/-- The functions of a sequence are offered to its frame before the rest. -/
theorem duplicates_findingsSeq (σ : Surroundings) {ss : List Stmt}
    (h : ∀ τ, (Stmt.findingsAll τ ss).duplicates =
      τ.refusals (ss.flatMap Stmt.bindings) + gather Opening.refusals (Stmt.openingsAll ss)) :
    (Stmt.findingsSeq σ ss).duplicates =
      σ.refusals (sequenceBindings ss) + gather Opening.refusals (Stmt.openingsAll ss) := by
  rw [Stmt.findingsSeq, Log.duplicates_append, Surroundings.duplicates_refusals, h,
    sequenceBindings, coe_refusals_append, add_assoc]

/-- Bindings that are offered to a new frame. -/
theorem coe_refusals_opening {o : Opening} (σ : Surroundings) {bs bs' : List Binding}
    (h : o.bindings = bs ++ bs') :
    (o.refusals : Multiset Diagnostic) =
      σ.push.refusals bs + (σ.push.offerAll bs).refusals bs' := by
  rw [← coe_refusals_append, Opening.refusals, h]
  rfl

mutual

/-- The duplicates in a statement are refused by the frame around it or by one that is opened in
it. -/
theorem Stmt.duplicates_findings : ∀ (σ : Surroundings) (s : Stmt),
    (s.findings σ).duplicates = σ.refusals s.bindings + gather Opening.refusals s.openings
  | σ, .var _ d => by
    rw [Stmt.findings, Log.duplicates_append, Expr.duplicates_findingsOpt,
      Surroundings.duplicates_refusals]
    exact (zero_add _).trans (add_zero _).symm
  | σ, .func _ f ⟨ss, _⟩ => by
    refine Eq.trans ?_ (zero_add _).symm
    rw [Stmt.findings_func, Log.duplicates_append, Surroundings.duplicates_refusals,
      duplicates_findingsSeq _ fun τ => Stmt.duplicates_findingsAll τ ss, Stmt.openings,
      gather_cons, coe_refusals_opening (σ.enter f.result) rfl, add_assoc]
  | _, .assign _ _ _ | _, .call _ _ | _, .after _ _ _ =>
    Log.duplicates_eq_zero (by simp [Stmt.findings])
  | σ, .block _ b => (Block.duplicates_findings σ b).trans (zero_add _).symm
  | σ, .ifChain _ arms o => by
    refine Eq.trans ?_ (zero_add _).symm
    rw [Stmt.findings, Log.duplicates_append, Arm.duplicates_findingsAll σ arms,
      Block.duplicates_findingsOpt σ o, Stmt.openings, gather_append]
  | σ, .whileLoop _ e b => by
    refine Eq.trans ?_ (zero_add _).symm
    rw [Stmt.findings, Log.duplicates_append, Expr.duplicates_findings, zero_add,
      Block.duplicates_findings _ b, Stmt.openings]
  | σ, .forLoop _ i e u b => by
    refine Eq.trans ?_ (zero_add _).symm
    -- the clauses share a frame, although the body is analyzed between them
    rw [Stmt.findings, Log.duplicates_append, Log.duplicates_append, Log.duplicates_append,
      Expr.duplicates_findingsOpt, Stmt.duplicates_findingsOpt _ i, Block.duplicates_findings _ b,
      Stmt.duplicates_findingsOpt _ u, Stmt.openings, gather_cons, gather_append, gather_append,
      coe_refusals_opening σ rfl]
    abel
  | σ, .jump s j => Log.duplicates_eq_zero ((allOf_jump σ s j).ofKind_ne (by decide))
  | σ, .ret s e =>
    Log.duplicates_eq_zero (by simp [Stmt.findings, (allOf_returnProblem? _ _ s).ofKind_ne])

/-- Each duplicate about the initializer or step of a loop is refused by the loop's frame or by one
inside. -/
theorem Stmt.duplicates_findingsOpt : ∀ (σ : Surroundings) (o : Option Stmt),
    (Stmt.findingsOpt σ o).duplicates =
      σ.refusals (sequenceBindings o.toList) + gather Opening.refusals (Stmt.openingsOpt o)
  | _, none => rfl
  | σ, some s => by
    rw [Stmt.findingsOpt, Log.duplicates_append, Surroundings.duplicates_refusals,
      Stmt.duplicates_findings _ s, ← add_assoc, ← coe_refusals_append,
      ← sequenceBindings_singleton]
    rfl

/-- Each duplicate about a list of statements is refused by their frame or by one inside. -/
theorem Stmt.duplicates_findingsAll : ∀ (σ : Surroundings) (ss : List Stmt),
    (Stmt.findingsAll σ ss).duplicates =
      σ.refusals (ss.flatMap Stmt.bindings) + gather Opening.refusals (Stmt.openingsAll ss)
  | _, [] => rfl
  | σ, s :: ss => by
    rw [Stmt.findingsAll, Log.duplicates_append, Stmt.duplicates_findings σ s,
      Stmt.duplicates_findingsAll _ ss, List.flatMap_cons, coe_refusals_append, Stmt.openingsAll,
      gather_append]
    abel

/-- Each duplicate about a block is refused by a frame opened for it. -/
theorem Block.duplicates_findings : ∀ (σ : Surroundings) (b : Block),
    (b.findings σ).duplicates = gather Opening.refusals b.openings
  | σ, ⟨ss, t⟩ => by
    rw [Block.findings_eq, duplicates_findingsSeq _ fun τ => Stmt.duplicates_findingsAll τ ss,
      Block.openings, gather_cons]
    rfl

/-- Each duplicate about an optional block is refused by a frame opened for it. -/
theorem Block.duplicates_findingsOpt : ∀ (σ : Surroundings) (o : Option Block),
    (Block.findingsOpt σ o).duplicates = gather Opening.refusals (Block.openingsOpt o)
  | _, none => rfl
  | σ, some b => Block.duplicates_findings σ b

/-- Each duplicate about conditional arms is refused by a frame opened for them. -/
theorem Arm.duplicates_findingsAll : ∀ (σ : Surroundings) (arms : List Arm),
    (Arm.findingsAll σ arms).duplicates = gather Opening.refusals (Arm.openingsAll arms)
  | _, [] => rfl
  | σ, ⟨e, b⟩ :: arms => by
    rw [Arm.findingsAll, Log.duplicates_append, Log.duplicates_append, Expr.duplicates_findings,
      zero_add, Block.duplicates_findings σ b, Arm.duplicates_findingsAll σ arms,
      Arm.openingsAll, gather_append]

end

/-- Each duplicate about a program is refused by one of its frames. -/
theorem Program.duplicates_findings (p : Program) :
    p.findings.duplicates = gather Opening.refusals p.openings := by
  rw [Program.findings, duplicates_findingsSeq _ fun τ => Stmt.duplicates_findingsAll τ p.stmts,
    Program.openings, gather_cons]
  rfl

/-! ## Declarations at different places -/

/-- Logs with the same duplicates in some order have the same ones at each place. -/
theorem Log.duplicatesAt_perm {log log' : Log} (h : log.duplicates = (log' : List Diagnostic))
    (hall : log'.AllOf .duplicate) (s : Span) :
    (log.duplicatesAt s).Perm (log'.duplicatesAt s) := by
  have hperm : (log.ofKind .duplicate).Perm log' := Multiset.coe_eq_coe.1 h
  rw [duplicatesAt, duplicatesAt, hall.ofKind_self]
  exact hperm.filter _

/-- All that the frames refuse is reported as declared twice. -/
theorem allOf_flatMap_refusals (os : List Opening) :
    Log.AllOf .duplicate (os.flatMap Opening.refusals) := by
  intro d hd
  obtain ⟨o, -, hd⟩ := List.mem_flatMap.1 hd
  exact Frame.allOf_refusals [] o.bindings d hd

/-- Openings without a binding at a place refuse nothing there. -/
theorem duplicatesAt_flatMap_refusals {os : List Opening} {s : Span}
    (h : s ∉ (os.flatMap Opening.bindings).map Binding.span) :
    Log.duplicatesAt (os.flatMap Opening.refusals) s = [] := by
  refine Log.duplicatesAt_eq_nil (fun d hd => ?_) h
  obtain ⟨o, ho, hd⟩ := List.mem_flatMap.1 hd
  obtain ⟨b, hb, hspan⟩ := Frame.span_of_mem_refusals hd
  exact ⟨b, List.mem_flatMap.2 ⟨o, ho, hb⟩, hspan⟩

/-- If all bindings stand at different places, then the duplicates at the place of one of them are
those of its own opening. -/
theorem duplicatesAt_opening {os : List Opening} {o : Opening} {s : Span} (ho : o ∈ os)
    (hnodup : ((os.flatMap Opening.bindings).map Binding.span).Nodup)
    (hs : s ∈ o.bindings.map Binding.span) :
    Log.duplicatesAt (os.flatMap Opening.refusals) s = o.refusals.duplicatesAt s := by
  obtain ⟨before, after, rfl⟩ := List.append_of_mem ho
  -- the place is none of those in the openings before and after
  rw [List.flatMap_append, List.flatMap_cons, List.map_append, List.map_append,
    List.nodup_append'] at hnodup
  obtain ⟨-, hself, hbefore⟩ := hnodup
  obtain ⟨-, -, hafter⟩ := List.nodup_append'.1 hself
  rw [List.flatMap_append, List.flatMap_cons, Log.duplicatesAt_append, Log.duplicatesAt_append,
    duplicatesAt_flatMap_refusals fun h => hbefore h (List.mem_append_left _ hs),
    duplicatesAt_flatMap_refusals (hafter hs), List.nil_append, List.append_nil]

/-! ## Which declaration is kept -/

/-- Wherever the analysis of a sequence begins in a new frame, with the parameters if the sequence
is the body of a function, it ends with `e` in this frame as the declaration of `x`. This is how
programs, blocks and the bodies of functions are analyzed (`Program.analyze_eq`, `Block.analyze_eq`,
`analyzeIn_func`). -/
def Keeps (params : List Param) (ss : List Stmt) (x : String) (e : Entity) : Prop :=
  ∀ ctx : Context, ctx.scopes.innermost = [] →
    ∃ ss' c, analyzeBody params ss ctx = .ok ss' c ∧ c.scopes.lookupLocal x = some e

/-- The first binding of the name among those that the sequence offers is kept. -/
theorem keeps_of_lookup {params : List Param} {ss : List Stmt} {x : String} {e : Entity}
    (he : (Opening.sequence params ss).bindings.lookup x = some e) : Keeps params ss x e := by
  intro ctx hctx
  obtain ⟨ss', bs, new, hrun, -, -⟩ := ends_analyzeBody params ss ctx
  obtain ⟨hc, -, -⟩ := finds_analyzeBody ctx.surroundings params ss rfl hrun
  have hframe := congrArg Surroundings.frame hc
  have hnew : ctx.surroundings.frame = [] := hctx
  rw [Surroundings.frame_offerAll, hnew] at hframe
  refine ⟨ss', _, hrun, ?_⟩
  exact (congrArg (List.lookup x) hframe).trans ((Frame.lookup_offerAll [] _ x).trans he)

/-- In a program whose declarations stand at different places, the frame of each sequence keeps the
first declaration of every name, where parameters come before functions and functions before
variables. That declaration is not reported as a duplicate, and every other one of the name in the
sequence is reported once, as a duplicate of it. -/
theorem Program.analysis_keeps_first (p : Program)
    (hp : (p.declarations.map Binding.span).Nodup) :
    ∃ q log, p.analysis = .ok ⟨q, log⟩ ∧
      ∀ params ss, Opening.sequence params ss ∈ p.openings → ∀ x e,
        (Opening.sequence params ss).bindings.lookup x = some e →
          Keeps params ss x e ∧ log.duplicatesAt e.span = [] ∧
            ∀ e', (x, e') ∈ (Opening.sequence params ss).bindings → e' ≠ e →
              log.duplicatesAt e'.span = [⟨.duplicateDeclaration x e.span, some e'.span⟩] := by
  obtain ⟨q, log, hok, hlog, -⟩ := p.analysis_findings
  refine ⟨q, log, hok, fun params ss hopen x e he => ?_⟩
  have hall : ((p.openings.flatMap Opening.bindings).map Binding.span).Nodup := by
    rw [p.declarations_eq] at hp
    exact Multiset.coe_nodup.1 hp
  have hduplicates : log.duplicates = (p.openings.flatMap Opening.refusals : List Diagnostic) := by
    rw [Log.duplicates, ← Log.ofKind_untyped (by decide), hlog]
    exact p.duplicates_findings
  -- what is reported at the place of a declaration is what the frame of the sequence refuses there
  have hat {e' : Entity} (he' : (x, e') ∈ (Opening.sequence params ss).bindings) :
      (log.duplicatesAt e'.span).Perm
        ((Frame.refusals [] (Opening.sequence params ss).bindings).duplicatesAt e'.span) := by
    have hperm := Log.duplicatesAt_perm hduplicates (allOf_flatMap_refusals _) e'.span
    have hspan : e'.span ∈ (Opening.sequence params ss).bindings.map Binding.span :=
      List.mem_map_of_mem he'
    rwa [duplicatesAt_opening hopen hall hspan] at hperm
  have hself : ((Opening.sequence params ss).bindings.map Binding.span).Nodup :=
    hall.sublist ((List.sublist_flatten_of_mem (List.mem_map_of_mem hopen)).map _)
  refine ⟨keeps_of_lookup he, ?_, fun e' he' hne => ?_⟩
  · have hperm := hat (Frame.mem_of_lookup he)
    rw [Frame.duplicatesAt_first hself he] at hperm
    exact hperm.eq_nil
  · have hperm := hat he'
    rw [Frame.duplicatesAt_other hself he he' hne] at hperm
    exact List.perm_singleton.1 hperm

/-- The name `x` is declared twice by the program and twice by the parameters of a function. -/
def twiceDeclared : Program :=
  ⟨[.var ⟨0, 9⟩ ⟨"x", .int, none, ⟨0, 9⟩⟩,
    .func ⟨10, 60⟩ ⟨"x", [⟨"x", .int, ⟨15, 16⟩⟩, ⟨"x", .bool, ⟨18, 19⟩⟩], .void, ⟨10, 30⟩⟩
      ⟨[.var ⟨40, 49⟩ ⟨"y", .int, none, ⟨40, 49⟩⟩], ⟨35, 60⟩⟩]⟩

/-- The program keeps the function, and the function its first parameter. The variable, which comes
before the function, and the second parameter are reported. -/
theorem keeps_first_twiceDeclared :
    let func : Entity := ⟨.func, .fn [.int, .bool] .void, ⟨10, 30⟩⟩
    let body : List Stmt := [.var ⟨40, 49⟩ ⟨"y", .int, none, ⟨40, 49⟩⟩]
    let params : List Param := [⟨"x", .int, ⟨15, 16⟩⟩, ⟨"x", .bool, ⟨18, 19⟩⟩]
    let log : Log := [⟨.duplicateDeclaration "x" ⟨10, 30⟩, some ⟨0, 9⟩⟩,
      ⟨.duplicateDeclaration "x" ⟨15, 16⟩, some ⟨18, 19⟩⟩]
    (twiceDeclared.declarations.map Binding.span).Nodup ∧
      twiceDeclared.analysis = .ok ⟨twiceDeclared, log⟩ ∧
      (Keeps [] twiceDeclared.stmts "x" func ∧ log.duplicatesAt ⟨10, 30⟩ = [] ∧
        log.duplicatesAt ⟨0, 9⟩ = [⟨.duplicateDeclaration "x" ⟨10, 30⟩, some ⟨0, 9⟩⟩]) ∧
      (Keeps params body "x" ⟨.param, .int, ⟨15, 16⟩⟩ ∧ log.duplicatesAt ⟨15, 16⟩ = [] ∧
        log.duplicatesAt ⟨18, 19⟩ = [⟨.duplicateDeclaration "x" ⟨15, 16⟩, some ⟨18, 19⟩⟩]) := by
  intro func body params log
  have hnodup : (twiceDeclared.declarations.map Binding.span).Nodup := by decide
  obtain ⟨q, log', hok, h⟩ := twiceDeclared.analysis_keeps_first hnodup
  obtain ⟨rfl, rfl⟩ := Analysis.mk.inj (Except.ok.inj hok)
  obtain ⟨hkept, hfirst, hother⟩ := h [] twiceDeclared.stmts List.mem_cons_self "x" func rfl
  obtain ⟨hkept', hfirst', hother'⟩ := h params body
    (List.mem_cons_of_mem _ List.mem_cons_self) "x" ⟨.param, .int, ⟨15, 16⟩⟩ rfl
  refine ⟨hnodup, hok, ⟨hkept, hfirst, ?_⟩, hkept', hfirst', ?_⟩
  · exact hother ⟨.var, .int, ⟨0, 9⟩⟩ (by decide) (by decide)
  · exact hother' ⟨.param, .bool, ⟨18, 19⟩⟩ (by decide) (by decide)

end Procedural
