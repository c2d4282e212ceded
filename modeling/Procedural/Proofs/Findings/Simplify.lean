import Procedural.Proofs.Findings.Analysis
import Procedural.Proofs.Folding.Stable
import Procedural.Proofs.Simplify.Survivors

/-! # Simplification adds no findings

Every part of a simplified tree stands in the same surroundings as the part of the tree that it
comes from: what goes declares nothing that is seen from what stays, and a block that takes the
place of a loop or of a conditional statement opens the same scope. So the findings of the
simplified tree are among those of the tree, in the same order, whether or not the tree is well
typed. -/

namespace Procedural

/-! ## Expressions -/

mutual

/-- Folding adds no findings about an expression. -/
theorem findings_foldExpr (s : Scopes) : ∀ e : Expr,
    (e.fold.findings s).Sublist (e.findings s)
  | .lit _ _ | .ident _ _ => .refl _
  | .binary _ _ l r =>
    (sublist_foldBinary (Expr.findings s) (fun _ => rfl) rfl).trans <|
      (findings_foldExpr s l).append (findings_foldExpr s r)
  | .unary _ _ e =>
    (sublist_foldUnary (Expr.findings s) (fun _ => rfl) rfl).trans (findings_foldExpr s e)
  | .call _ c => findings_foldCall s c

/-- Folding adds no findings about a call, which keeps its name and its number of arguments. -/
theorem findings_foldCall (s : Scopes) : ∀ c : Call,
    (c.fold.findings s).Sublist (c.findings s)
  | ⟨f, args, sp⟩ => by
    have hlength : (foldAll args).length = args.length := by simp
    rw [Call.fold, Call.findings, Call.findings, hlength]
    exact (List.Sublist.refl _).append ((findings_foldExprs s args).append (.refl _))

/-- Folding adds no findings about a list of expressions. -/
theorem findings_foldExprs (s : Scopes) : ∀ es : List Expr,
    (Expr.findingsAll s (foldAll es)).Sublist (Expr.findingsAll s es)
  | [] => .refl _
  | e :: es => (findings_foldExpr s e).append (findings_foldExprs s es)

end

/-- Folding adds no findings about an optional expression. -/
theorem findings_foldOpt (s : Scopes) (o : Option Expr) :
    (Expr.findingsOpt s (o.map Expr.fold)).Sublist (Expr.findingsOpt s o) := by
  cases o with
  | none => exact .refl _
  | some e => exact findings_foldExpr s e

/-! ## Sequences -/

variable {σ : Surroundings} {cut : Bool}

/-- A simplified statement declares what the statement declares. -/
@[simp] theorem bindings_simplify (cut : Bool) (s : Stmt) :
    (s.simplify cut).bindings = s.bindings := by
  refine kept_simplify (a := []) (fun s hs => ?_) (fun s hs => ?_) s
  · cases s <;> first | rfl | nomatch hs
  · cases s <;> first | rfl | nomatch hs

/-- Tidying a sequence keeps its functions. -/
theorem functionBindings_tidy (cut : Bool) (ss : List Stmt) :
    functionBindings (tidy cut ss) = functionBindings ss := by
  rw [functionBindings, headers_tidy, functionBindings]

/-- Simplifying the statements of a sequence keeps its functions. -/
theorem functionBindings_map_simplify (cut : Bool) (ss : List Stmt) :
    functionBindings (ss.map (Stmt.simplify cut)) = functionBindings ss := by
  rw [functionBindings, headers_map_simplify, functionBindings]

/-- Simplifying the statements of a sequence keeps what it declares. -/
theorem sequenceBindings_map_simplify (cut : Bool) (ss : List Stmt) :
    sequenceBindings (ss.map (Stmt.simplify cut)) = sequenceBindings ss := by
  rw [sequenceBindings, functionBindings_map_simplify, List.flatMap_map, sequenceBindings]
  simp only [bindings_simplify]

/-- There is nothing to find in an empty block, and it binds nothing. -/
theorem findings_of_isEmptyBlock {s : Stmt} (h : s.isEmptyBlock = true) (σ : Surroundings) :
    s.findings σ = [] ∧ s.bindings = [] := by
  cases s with
  | block sp b =>
    obtain ⟨ss, t⟩ := b
    obtain rfl : ss = [] := List.isEmpty_iff.1 h
    exact ⟨rfl, rfl⟩
  | _ => nomatch h

/-- Nothing is found about empty blocks. -/
theorem findingsAll_dropEmpty (σ : Surroundings) (ss : List Stmt) :
    Stmt.findingsAll σ (dropEmpty ss) = Stmt.findingsAll σ ss := by
  induction ss generalizing σ with
  | nil => rfl
  | cons s ss ih =>
    rw [dropEmpty_cons]
    split
    · rename_i he
      obtain ⟨hfind, hbind⟩ := findings_of_isEmptyBlock he σ
      rw [ih, Stmt.findingsAll, hfind, hbind, Surroundings.offerAll_nil, List.nil_append]
    · rw [Stmt.findingsAll, ih, Stmt.findingsAll]

/-- What goes with a dead tail comes last. -/
theorem findingsAll_cutTail (σ : Surroundings) (ss : List Stmt) :
    (Stmt.findingsAll σ (cutTail ss)).Sublist (Stmt.findingsAll σ ss) := by
  induction ss generalizing σ with
  | nil => exact .refl _
  | cons s ss ih =>
    rw [cutTail_cons]
    split
    · split
      · exact .refl _
      · exact (List.Sublist.refl _).append (List.nil_sublist _)
    · exact (List.Sublist.refl _).append (ih _)

/-- Tidying a sequence adds no findings, as its frame starts with the same functions. -/
theorem findingsSeq_tidy (σ : Surroundings) (ss : List Stmt) :
    (Stmt.findingsSeq σ (tidy cut ss)).Sublist (Stmt.findingsSeq σ ss) := by
  rw [Stmt.findingsSeq, functionBindings_tidy, tidy_eq, findingsAll_dropEmpty]
  refine (List.Sublist.refl _).append ?_
  cases cut with
  | false => exact .refl _
  | true => exact findingsAll_cutTail _ ss

/-- Simplifying the statement adds no findings about it. -/
def Stmt.Clarifies (cut : Bool) (s : Stmt) : Prop :=
  ∀ σ, ((s.simplify cut).findings σ).Sublist (s.findings σ)

/-- Simplifying statements one by one adds no findings, as each declares what it did. -/
theorem findingsAll_map_simplify (σ : Surroundings) {ss : List Stmt}
    (h : ∀ x ∈ ss, x.Clarifies cut) :
    (Stmt.findingsAll σ (ss.map (Stmt.simplify cut))).Sublist (Stmt.findingsAll σ ss) := by
  induction ss generalizing σ with
  | nil => exact .refl _
  | cons s ss ih =>
    rw [List.map_cons, Stmt.findingsAll, Stmt.findingsAll, bindings_simplify]
    obtain ⟨hs, hss⟩ := List.forall_mem_cons.1 h
    exact (hs σ).append (ih _ hss)

/-- Simplifying the statements of a sequence adds no findings about the sequence. -/
theorem findingsSeq_map_simplify (σ : Surroundings) {ss : List Stmt}
    (h : ∀ x ∈ ss, x.Clarifies cut) :
    (Stmt.findingsSeq σ (ss.map (Stmt.simplify cut))).Sublist (Stmt.findingsSeq σ ss) := by
  rw [Stmt.findingsSeq, functionBindings_map_simplify]
  exact (List.Sublist.refl _).append (findingsAll_map_simplify _ h)

/-- A block gets no new findings if none of its statements does. -/
theorem findings_simplifyBlock (σ : Surroundings) {b : Block}
    (h : ∀ x ∈ b.stmts, x.Clarifies cut) :
    ((b.simplify cut).findings σ).Sublist (b.findings σ) := by
  rw [Block.findings_eq, Block.findings_eq, stmts_simplify]
  exact (findingsSeq_tidy _ _).trans (findingsSeq_map_simplify _ h)

/-- The initializer or step of a loop gets no new findings if the statement does not. -/
theorem findings_simplifyStmtOpt (σ : Surroundings) {o : Option Stmt}
    (h : ∀ x ∈ o, x.Clarifies cut) :
    (Stmt.findingsOpt σ (o.map (Stmt.simplify cut))).Sublist (Stmt.findingsOpt σ o) := by
  rw [Stmt.findingsOpt_eq, Stmt.findingsOpt_eq, Option.toList_map]
  exact findingsSeq_map_simplify σ fun x hx => h x (Option.mem_toList.1 hx)

/-! ## Conditional statements -/

/-- Conditional arms get no new findings if no statement of their blocks does. -/
theorem findings_simplifyArms (σ : Surroundings) {arms : List Arm}
    (h : ∀ a ∈ arms, ∀ x ∈ a.body.stmts, x.Clarifies cut) :
    (Arm.findingsAll σ (simplifyArms cut arms)).Sublist (Arm.findingsAll σ arms) := by
  induction arms with
  | nil => exact .refl _
  | cons a arms ih =>
    obtain ⟨ha, harms⟩ := List.forall_mem_cons.1 h
    obtain ⟨e, b⟩ := a
    exact (findings_foldExpr _ e).append ((findings_simplifyBlock σ ha).append (ih harms))

/-- An optional block gets no new findings if none of its statements does. -/
theorem findings_simplifyBlockOpt (σ : Surroundings) {o : Option Block}
    (h : ∀ b ∈ o, ∀ x ∈ b.stmts, x.Clarifies cut) :
    (Block.findingsOpt σ (simplifyBlockOpt cut o)).Sublist (Block.findingsOpt σ o) := by
  cases o with
  | none => exact .refl _
  | some b => exact findings_simplifyBlock σ (h b rfl)

/-- Arms that are never chosen take their findings with them. -/
theorem findings_choosable (σ : Surroundings) (arms : List Arm) (o : Option Block) :
    (Arm.findingsAll σ (choosable arms o).1 ++ Block.findingsOpt σ (choosable arms o).2).Sublist
      (Arm.findingsAll σ arms ++ Block.findingsOpt σ o) := by
  induction arms with
  | nil => exact .refl _
  | cons a arms ih =>
    rw [choosable, Arm.findingsAll_cons, List.append_assoc, List.append_assoc]
    split
    · exact ih.trans ((List.sublist_append_right _ _).trans (List.sublist_append_right _ _))
    · simp [Arm.findingsAll_cons, Arm.findingsAll, Block.findingsOpt]
    · rw [Arm.findingsAll_cons, List.append_assoc, List.append_assoc]
      exact (List.Sublist.refl _).append ((List.Sublist.refl _).append ih)

/-- Choosing among the arms of a conditional adds no findings. -/
theorem findings_choice (σ : Surroundings) (s : Span) (arms : List Arm) (o : Option Block) :
    ((choice s arms o).findings σ).Sublist
      (Arm.findingsAll σ arms ++ Block.findingsOpt σ o) := by
  refine .trans ?_ (findings_choosable σ arms o)
  unfold choice
  split
  · exact List.nil_sublist _
  · rename_i b h
    rw [h]
    exact .refl _
  · rename_i a as d h
    rw [h]
    split
    · -- the block of the arm is all that is left of the statement
      rw [Arm.findingsAll_cons, List.append_assoc, List.append_assoc]
      exact (List.sublist_append_left _ _).trans (List.sublist_append_right _ _)
    · exact .refl _

/-! ## Statements -/

/-- Removing a loop that has no rounds adds no findings. -/
theorem findings_roundsWhile (σ : Surroundings) (s : Span) (e : Expr) (b : Block) :
    ((roundsWhile s e b).findings σ).Sublist ((Stmt.whileLoop s e b).findings σ) := by
  unfold roundsWhile
  split
  · exact List.nil_sublist _
  · exact .refl _

/-- The initializer that is left of a loop opens the scope that the loop opened. -/
theorem findings_roundsFor (σ : Surroundings) (s : Span) (i : Option Stmt) (e : Option Expr)
    (u : Option Stmt) (b : Block) :
    ((roundsFor s i e u b).findings σ).Sublist ((Stmt.forLoop s i e u b).findings σ) := by
  unfold roundsFor
  split
  · have hblock : (Stmt.block s ⟨i.toList, s⟩).findings σ = Stmt.findingsOpt σ.push i :=
      (Stmt.findingsOpt_eq σ.push i).symm
    rw [hblock]
    exact List.sublist_append_left _ _
  · exact .refl _

/-- Simplifying a statement adds no findings about it. -/
theorem clarifies (cut : Bool) (s : Stmt) : s.Clarifies cut := by
  induction s using Stmt.induct with
  | step s ih =>
    have hblock : ∀ b ∈ s.blocks, ∀ x ∈ b.stmts, x.Clarifies cut := by
      intro b hb x hx
      exact ih x (Stmt.mem_children_of_block hb hx)
    intro σ
    cases s with
    | var s d => exact (findings_foldOpt _ d.init).append (.refl _)
    | func s f b =>
      rw [Stmt.simplify, Stmt.findings_func, Stmt.findings_func, stmts_simplify]
      refine (List.Sublist.refl _).append ((findingsSeq_tidy _ _).trans ?_)
      exact findingsSeq_map_simplify _ (hblock b (by simp [Stmt.blocks]))
    | assign s x e =>
      exact (List.Sublist.refl _).append ((findings_foldExpr _ e).append (.refl _))
    | call s c => exact findings_foldCall _ c
    | after s e c => exact (findings_foldExpr _ e).append (findings_foldCall _ c)
    | block s b => exact findings_simplifyBlock σ (hblock b (by simp [Stmt.blocks]))
    | ifChain s arms o =>
      refine (findings_choice σ s _ _).trans ?_
      exact (findings_simplifyArms σ fun a ha => hblock _ (Stmt.mem_blocks_of_arm ha)).append
        (findings_simplifyBlockOpt σ fun b hb => hblock _ (Stmt.mem_blocks_of_else hb))
    | whileLoop s e b =>
      refine (findings_roundsWhile σ s _ _).trans ?_
      exact (findings_foldExpr _ e).append
        (findings_simplifyBlock _ (hblock b (by simp [Stmt.blocks])))
    | forLoop s i e u b =>
      have hi : ∀ x ∈ i, x.Clarifies cut := fun x hx => ih x (Stmt.mem_children_of_init hx)
      have hu : ∀ x ∈ u, x.Clarifies cut := fun x hx => ih x (Stmt.mem_children_of_step hx)
      rw [Stmt.simplify, simplifyStmtOpt_eq_map, simplifyStmtOpt_eq_map]
      refine (findings_roundsFor σ s _ _ _ _).trans ?_
      rw [Stmt.findings, Option.toList_map, sequenceBindings_map_simplify]
      exact (findings_simplifyStmtOpt _ hi).append <| (findings_foldOpt _ e).append <|
        (findings_simplifyBlock _ (hblock b (by simp [Stmt.blocks]))).append
          (findings_simplifyStmtOpt _ hu)
    | jump s j => exact .refl _
    | ret s e =>
      rw [Stmt.simplify, Stmt.findings, Option.isSome_map]
      exact (findings_foldOpt _ e).append (.refl _)

/-- Simplifying a program adds no findings about it. -/
theorem findings_simplifyProgram (cut : Bool) (p : Program) :
    (p.simplify cut).findings.Sublist p.findings := by
  rw [Program.simplify, simplifyAll_eq_map]
  exact (findingsSeq_tidy _ _).trans (findingsSeq_map_simplify _ fun x _ => clarifies cut x)

/-- Analyzing the simplified form of an analyzed program, well formed or not, reports nothing new
about names, calls, jumps and returns: what is reported other than about types had been reported
before, in the same order. -/
theorem Program.analysis_simplify_untyped (p : Program) (cut : Bool) :
    ∃ q log q' log', p.analysis = .ok ⟨q, log⟩ ∧ (q.simplify cut).analysis = .ok ⟨q', log'⟩ ∧
      log'.untyped.Sublist log.untyped := by
  obtain ⟨q, log, hp, hlog, hbare⟩ := p.analysis_findings
  obtain ⟨q', log', hq, hlog', -⟩ := (q.simplify cut).analysis_findings
  refine ⟨q, log, q', log', hp, hq, ?_⟩
  rw [hlog, hlog', ← Program.findings_eq_of_bare hbare]
  exact findings_simplifyProgram cut q

end Procedural
