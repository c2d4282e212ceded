import Procedural.Proofs.Folding.Stable
import Procedural.Proofs.Simplify.Survivors
import Procedural.Proofs.Syntax.Nodes

/-! # The normal form of simplified programs

What simplification leaves nothing of, wherever in the program it could stand:

* `Expr.Irreducible`: an operator whose result is known, or one that its left operand settles.
* `Stmt.Undecided`: a choice or a loop that a literal condition decides.
* `Trimmed`: a dead tail. A tail with a function in it stays as a whole, so behind that function
  another jump or return can have statements after it (`exists_untrimmed_tail`).

`Program.normalForm_simplify` puts them together. -/

namespace Procedural

/-! ## Expressions -/

/-- The root of the expression cannot be replaced: an operator has no result on operands that are
literals, and a logic operator has no boolean literal on its left with something else than a literal
on its right. -/
def Expr.Irreducible : Expr → Prop
  | .binary _ op l r => op.Stays l r
  | .unary _ op e => op.Stays e
  | _ => True

/-- No expression of the list can be replaced. -/
def AllIrreducible (es : List Expr) : Prop := ∀ e ∈ es, e.Irreducible

/-- Nothing in two lists can be replaced exactly if nothing in either can. -/
theorem allIrreducible_append {es es' : List Expr} :
    AllIrreducible (es ++ es') ↔ AllIrreducible es ∧ AllIrreducible es' :=
  List.forall_mem_append

/-- If nothing in two lists can be replaced, then nothing in both together can. -/
theorem AllIrreducible.append {es es' : List Expr} (h : AllIrreducible es)
    (h' : AllIrreducible es') : AllIrreducible (es ++ es') :=
  allIrreducible_append.2 ⟨h, h'⟩

mutual

/-- In a normal expression no node can be replaced. -/
theorem Expr.Normal.irreducible : ∀ {e : Expr}, e.Normal → AllIrreducible e.nodes
  | .lit _ _, _ | .ident _ _, _ => List.forall_mem_singleton.2 trivial
  | .binary _ _ _ _, ⟨⟨hl, hr⟩, hstays⟩ =>
    List.forall_mem_cons.2 ⟨hstays, hl.irreducible.append hr.irreducible⟩
  | .unary _ _ _, ⟨he, hstays⟩ => List.forall_mem_cons.2 ⟨hstays, he.irreducible⟩
  | .call _ _, hc => List.forall_mem_cons.2 ⟨trivial, Call.Normal.irreducible hc⟩

/-- No argument of a normal call, at any depth, can be replaced. -/
theorem Call.Normal.irreducible : ∀ {c : Call}, c.Normal → AllIrreducible c.nodes
  | ⟨_, _, _⟩, hargs => Expr.NormalAll.irreducible hargs

/-- No expression in a normal list, at any depth, can be replaced. -/
theorem Expr.NormalAll.irreducible : ∀ {es : List Expr}, Expr.NormalAll es →
    AllIrreducible (Expr.nodesAll es)
  | [], _ => List.forall_mem_nil _
  | _ :: _, ⟨he, hes⟩ => he.irreducible.append (Expr.NormalAll.irreducible hes)

end

/-- No part of a folded expression can be replaced. -/
theorem irreducible_foldExpr (e : Expr) : AllIrreducible e.fold.nodes := e.normal_fold.irreducible

/-- No part of an argument of a folded call can be replaced. -/
theorem irreducible_foldCall (c : Call) : AllIrreducible c.fold.nodes := c.normal_fold.irreducible

/-- No part of a folded optional expression can be replaced. -/
theorem irreducible_foldOpt : ∀ o : Option Expr, AllIrreducible (Expr.nodesOpt (o.map Expr.fold))
  | none => List.forall_mem_nil _
  | some e => irreducible_foldExpr e

/-! ### Expressions of statements -/

/-- The expressions in a list of statements are those in its statements. -/
theorem Stmt.mem_nodesAll {ss : List Stmt} {e : Expr} :
    e ∈ Stmt.nodesAll ss ↔ ∃ s ∈ ss, e ∈ s.nodes := by
  induction ss with
  | nil => simp [Stmt.nodesAll]
  | cons s ss ih => simp [Stmt.nodesAll, ih]

/-- Tidying leaves some of the statements. -/
theorem tidy_subset (cut : Bool) (ss : List Stmt) : tidy cut ss ⊆ ss := by
  rw [tidy_eq]
  intro s hs
  exact mem_of_mem_live (List.mem_filter.1 hs).1

/-- Tidying a sequence keeps only expressions of the sequence. -/
theorem AllIrreducible.tidy {ss : List Stmt} (h : AllIrreducible (Stmt.nodesAll ss)) (cut : Bool) :
    AllIrreducible (Stmt.nodesAll (tidy cut ss)) := by
  intro e he
  obtain ⟨s, hs, he⟩ := Stmt.mem_nodesAll.1 he
  exact h e (Stmt.mem_nodesAll.2 ⟨s, tidy_subset cut ss hs, he⟩)

/-- The arms that can be chosen have only expressions of the arms. -/
theorem AllIrreducible.choosable {arms : List Arm} {o : Option Block}
    (harms : AllIrreducible (Arm.nodesAll arms)) (ho : AllIrreducible (Block.nodesOpt o)) :
    AllIrreducible (Arm.nodesAll (choosable arms o).1) ∧
      AllIrreducible (Block.nodesOpt (choosable arms o).2) := by
  induction arms with
  | nil => exact ⟨harms, ho⟩
  | cons a arms ih =>
    obtain ⟨e, b⟩ := a
    obtain ⟨he, hrest⟩ := allIrreducible_append.1 harms
    obtain ⟨hb, harms⟩ := allIrreducible_append.1 hrest
    rw [Procedural.choosable]
    split
    · exact ih harms
    · exact ⟨he.append (hb.append (List.forall_mem_nil _)), List.forall_mem_nil _⟩
    · exact ⟨he.append (hb.append (ih harms).1), (ih harms).2⟩

/-- The choice among arms has only expressions of the arms. -/
theorem AllIrreducible.choice {arms : List Arm} {o : Option Block}
    (harms : AllIrreducible (Arm.nodesAll arms)) (ho : AllIrreducible (Block.nodesOpt o))
    (s : Span) : AllIrreducible (choice s arms o).nodes := by
  obtain ⟨hleft, hotherwise⟩ := harms.choosable ho
  rw [Procedural.choice]
  -- from here on it matters only what is left to choose from
  generalize Procedural.choosable arms o = left at hleft hotherwise
  obtain ⟨as, d⟩ := left
  cases as with
  | nil =>
    cases d with
    | none => exact List.forall_mem_nil _
    | some b => exact hotherwise
  | cons a as =>
    obtain ⟨e, b⟩ := a
    show AllIrreducible (if e.bool? = some true then _ else _ : Stmt).nodes
    split
    · -- of the arm that is always chosen the block is left
      exact (allIrreducible_append.1 (allIrreducible_append.1 hleft).2).1
    · exact hleft.append hotherwise

/-- What is left of a loop has only expressions of the loop. -/
theorem AllIrreducible.roundsWhile {e : Expr} {b : Block} (he : AllIrreducible e.nodes)
    (hb : AllIrreducible b.nodes) (s : Span) : AllIrreducible (roundsWhile s e b).nodes := by
  rw [Procedural.roundsWhile]
  split
  · exact List.forall_mem_nil _
  · exact he.append hb

/-- What is left of a loop with clauses has only expressions of the loop. -/
theorem AllIrreducible.roundsFor {i : Option Stmt} {e : Option Expr} {u : Option Stmt} {b : Block}
    (hi : AllIrreducible (Stmt.nodesOpt i)) (he : AllIrreducible (Expr.nodesOpt e))
    (hu : AllIrreducible (Stmt.nodesOpt u)) (hb : AllIrreducible b.nodes) (s : Span) :
    AllIrreducible (roundsFor s i e u b).nodes := by
  rw [Procedural.roundsFor]
  split
  · cases i with
    | none => exact List.forall_mem_nil _
    | some i => exact AllIrreducible.append hi (List.forall_mem_nil _)
  · exact hi.append (he.append (hb.append hu))

mutual

/-- In a simplified statement no expression can be replaced. -/
theorem irreducible_simplifyStmt (cut : Bool) : ∀ s : Stmt, AllIrreducible (s.simplify cut).nodes
  | .var _ d => irreducible_foldOpt d.init
  | .func _ _ b => irreducible_simplifyBlock cut b
  | .assign _ _ e => irreducible_foldExpr e
  | .call _ c => irreducible_foldCall c
  | .after _ e c => (irreducible_foldExpr e).append (irreducible_foldCall c)
  | .block _ b => irreducible_simplifyBlock cut b
  | .ifChain s arms o =>
    (irreducible_simplifyArms cut arms).choice (irreducible_simplifyBlockOpt cut o) s
  | .whileLoop s e b => (irreducible_foldExpr e).roundsWhile (irreducible_simplifyBlock cut b) s
  | .forLoop s i e u b =>
    (irreducible_simplifyStmtOpt cut i).roundsFor (irreducible_foldOpt e)
      (irreducible_simplifyStmtOpt cut u) (irreducible_simplifyBlock cut b) s
  | .jump _ _ => List.forall_mem_nil _
  | .ret _ e => irreducible_foldOpt e

/-- No expression in a simplified initializer or step can be replaced. -/
theorem irreducible_simplifyStmtOpt (cut : Bool) : ∀ o : Option Stmt,
    AllIrreducible (Stmt.nodesOpt (simplifyStmtOpt cut o))
  | none => List.forall_mem_nil _
  | some s => irreducible_simplifyStmt cut s

/-- No expression in simplified statements can be replaced. -/
theorem irreducible_simplifyAll (cut : Bool) : ∀ ss : List Stmt,
    AllIrreducible (Stmt.nodesAll (simplifyAll cut ss))
  | [] => List.forall_mem_nil _
  | s :: ss => (irreducible_simplifyStmt cut s).append (irreducible_simplifyAll cut ss)

/-- No expression in a simplified block can be replaced. -/
theorem irreducible_simplifyBlock (cut : Bool) : ∀ b : Block, AllIrreducible (b.simplify cut).nodes
  | ⟨ss, _⟩ => (irreducible_simplifyAll cut ss).tidy cut

/-- No expression in a simplified optional block can be replaced. -/
theorem irreducible_simplifyBlockOpt (cut : Bool) : ∀ o : Option Block,
    AllIrreducible (Block.nodesOpt (simplifyBlockOpt cut o))
  | none => List.forall_mem_nil _
  | some b => irreducible_simplifyBlock cut b

/-- No expression in simplified conditional arms can be replaced. -/
theorem irreducible_simplifyArms (cut : Bool) : ∀ arms : List Arm,
    AllIrreducible (Arm.nodesAll (simplifyArms cut arms))
  | [] => List.forall_mem_nil _
  | ⟨e, b⟩ :: arms =>
    (irreducible_foldExpr e).append
      ((irreducible_simplifyBlock cut b).append (irreducible_simplifyArms cut arms))

end

/-! ## Statements -/

/-- No arm is decided by a literal condition: there are arms, none with a false condition, and one
with a true condition stands last of several, with no block for when none holds. -/
structure ArmsUndecided (arms : List Arm) (o : Option Block) : Prop where
  /-- There is an arm. -/
  nonempty : arms ≠ []
  /-- Every arm can be chosen. -/
  noneFalse : ∀ a ∈ arms, a.cond.bool? ≠ some false
  /-- An arm that is always chosen when it is come to ends the choice. -/
  trueLast : ∀ before a after, arms = before ++ a :: after → a.cond.bool? = some true →
    before ≠ [] ∧ after = [] ∧ o = none

/-- The statement is not decided by a literal condition of its own. -/
def Stmt.Undecided : Stmt → Prop
  | .ifChain _ arms o => ArmsUndecided arms o
  | .whileLoop _ e _ => e.bool? ≠ some false
  | .forLoop _ _ e _ _ => ∀ c ∈ e, c.bool? ≠ some false
  | _ => True

/-- None of the arms that are left to choose from has a false condition. -/
theorem ne_false_of_mem_choosable {arms : List Arm} {o : Option Block} {a : Arm}
    (ha : a ∈ (choosable arms o).1) : a.cond.bool? ≠ some false := by
  induction arms with
  | nil => exact absurd ha List.not_mem_nil
  | cons c arms ih =>
    rw [choosable] at ha
    split at ha
    · exact ih ha
    · rename_i hc
      -- An arm that is always taken is the last one kept.
      obtain rfl := List.mem_singleton.1 ha
      rw [hc]
      decide
    · rename_i hc
      rcases List.mem_cons.1 ha with rfl | ha
      · rw [hc]
        exact (Option.some_ne_none false).symm
      · exact ih ha

/-- An arm that is always chosen when it is come to is the last of those left to choose from. -/
theorem choosable_ends_with_true {arms before after : List Arm} {o : Option Block} {a : Arm}
    (h : (choosable arms o).1 = before ++ a :: after) (ha : a.cond.bool? = some true) :
    after = [] ∧ (choosable arms o).2 = none := by
  induction arms generalizing before with
  | nil => exact absurd h (by simp [choosable])
  | cons c arms ih =>
    rw [choosable] at h ⊢
    split at h
    · exact ih h
    · cases before with
      | nil => exact ⟨(List.cons.inj h).2.symm, rfl⟩
      | cons d before => exact absurd (List.cons.inj h).2 (by simp)
    · rename_i hc
      cases before with
      | nil =>
        -- the condition of the first arm is no literal
        rw [(List.cons.inj h).1, ha] at hc
        exact absurd hc (Option.some_ne_none true)
      | cons d before => exact ih (List.cons.inj h).2

/-- The choice among arms is not decided by a literal condition. -/
theorem undecided_choice (s : Span) (arms : List Arm) (o : Option Block) :
    (choice s arms o).Undecided := by
  have hfalse : ∀ a ∈ (choosable arms o).1, a.cond.bool? ≠ some false :=
    fun a ha => ne_false_of_mem_choosable ha
  have htrue : ∀ before a after, (choosable arms o).1 = before ++ a :: after →
      a.cond.bool? = some true → after = [] ∧ (choosable arms o).2 = none :=
    fun _ _ _ => choosable_ends_with_true
  rw [choice]
  generalize choosable arms o = left at hfalse htrue
  obtain ⟨as, d⟩ := left
  cases as with
  | nil => cases d <;> trivial
  | cons a as =>
    show (if a.cond.bool? = some true then _ else _ : Stmt).Undecided
    split
    · trivial
    · -- the first condition is not true, so a true one has arms before it
      rename_i hfirst
      refine ⟨List.cons_ne_nil a as, hfalse, fun before x after hsplit hx => ⟨?_, ?_⟩⟩
      · rintro rfl
        exact hfirst ((List.cons.inj hsplit).1 ▸ hx)
      · exact htrue before x after hsplit hx

/-- A simplified statement is not decided by a literal condition of its own. -/
theorem undecided_simplify (cut : Bool) (s : Stmt) : (s.simplify cut).Undecided := by
  cases s with
  | ifChain s arms o => exact undecided_choice s _ _
  | whileLoop s e b =>
    rw [Stmt.simplify, roundsWhile]
    split
    · trivial
    · assumption
  | forLoop s i e u b =>
    rw [Stmt.simplify, roundsFor]
    split
    · trivial
    · rename_i hcond
      intro c hc hfalse
      rw [Option.mem_def.1 hc] at hcond
      exact hcond hfalse
  | _ => trivial

/-! ## Sequences -/

/-- Nothing dead is left in the sequence: a jump or a return is its last statement, unless a
function is declared after it, or between an earlier jump or return and it. -/
def Trimmed (ss : List Stmt) : Prop :=
  ∀ before t after, ss = before ++ t :: after → t.isTerminator = true →
    after = [] ∨ after.any Stmt.isFunction = true ∨
      ∃ earlier u between, before = earlier ++ u :: between ∧ u.isTerminator = true ∧
        between.any Stmt.isFunction = true

/-- The empty sequence is trimmed. -/
theorem trimmed_nil : Trimmed [] := by
  intro before t after h
  exact absurd h (by simp)

/-- A single statement is trimmed. -/
theorem trimmed_singleton (s : Stmt) : Trimmed [s] := by
  intro before t after h _
  cases before with
  | nil => exact .inl (List.cons.inj h).2.symm
  | cons u before => exact absurd (List.cons.inj h).2 (by simp)

/-- What is left of a sequence without its dead tail is trimmed. -/
theorem trimmed_cutTail (ss : List Stmt) : Trimmed (cutTail ss) := by
  induction ss with
  | nil => exact trimmed_nil
  | cons s ss ih =>
    rw [cutTail_cons]
    split
    · rename_i hs
      split
      · -- the whole tail stays, because a function is declared in it
        rename_i hany
        intro before t after h ht
        cases before with
        | nil =>
          obtain ⟨rfl, rfl⟩ := List.cons.inj h
          exact .inr (.inl hany)
        | cons u before =>
          rw [List.cons_append, List.cons.injEq] at h
          obtain ⟨rfl, rfl⟩ := h
          -- a jump or return further on is no function: the one in the tail stands on a side of it
          have hfun : t.isFunction = false := by cases t <;> first | rfl | nomatch ht
          rw [List.any_append, List.any_cons, hfun, Bool.false_or, Bool.or_eq_true] at hany
          rcases hany with hany | hany
          · exact .inr (.inr ⟨[], s, before, rfl, hs, hany⟩)
          · exact .inr (.inl hany)
      · exact trimmed_singleton s
    · -- the first statement is live, and the rest is trimmed by induction
      rename_i hs
      intro before t after h ht
      cases before with
      | nil => exact absurd ((List.cons.inj h).1 ▸ ht) hs
      | cons u before =>
        rw [List.cons_append, List.cons.injEq] at h
        obtain ⟨rfl, h⟩ := h
        rcases ih before t after h ht with h | h | ⟨earlier, u, between, rfl, hu, hany⟩
        · exact .inl h
        · exact .inr (.inl h)
        · exact .inr (.inr ⟨s :: earlier, u, between, rfl, hu, hany⟩)

/-! ## Whole programs -/

section Parts

variable {cut : Bool} {s x : Stmt} {b : Block}

/-- A choice is made among the given blocks. -/
theorem mem_blocks_of_choice {sp : Span} {arms : List Arm} {o : Option Block}
    (hb : b ∈ (choice sp arms o).blocks) :
    b.stmts = [] ∨ b ∈ arms.map (·.body) ++ o.toList := by
  obtain ⟨harms, ho⟩ := choosable_subset arms o
  rw [choice] at hb
  generalize choosable arms o = left at hb harms ho
  obtain ⟨as, d⟩ := left
  have hgiven : b ∈ as.map (·.body) ++ d.toList → b ∈ arms.map (·.body) ++ o.toList := by
    intro hb
    rcases List.mem_append.1 hb with hb | hb
    · exact List.mem_append_left _ (List.map_subset _ harms hb)
    · exact List.mem_append_right _ (ho hb)
  cases as with
  | nil =>
    cases d with
    | none =>
      -- Nothing is left to choose from: an empty block of its own stands for the chain.
      obtain rfl := List.mem_singleton.1 hb
      exact .inl rfl
    | some c => exact .inr (hgiven hb)
  | cons a as =>
    change b ∈ (if a.cond.bool? = some true then _ else _ : Stmt).blocks at hb
    split at hb
    · obtain rfl := List.mem_singleton.1 hb
      exact .inr (hgiven List.mem_cons_self)
    · exact .inr (hgiven hb)

/-- A block of a simplified statement is empty, or a simplified block of the statement, or holds its
simplified initializer. -/
theorem mem_blocks_of_simplify (hb : b ∈ (s.simplify cut).blocks) :
    b.stmts = [] ∨ (∃ i ∈ s.clauses, b.stmts = [i.simplify cut]) ∨
      ∃ b' ∈ s.blocks, b'.simplify cut = b := by
  cases s with
  | func sp f b' | block sp b' =>
    exact .inr (.inr ⟨b', List.mem_singleton.2 rfl, (List.mem_singleton.1 hb).symm⟩)
  | ifChain sp arms o =>
    rcases mem_blocks_of_choice hb with hb | hb
    · exact .inl hb
    · rw [simplifyArms_eq_map, simplifyBlockOpt_eq_map] at hb
      refine .inr (.inr ?_)
      rcases List.mem_append.1 hb with hb | hb
      · simp only [List.map_map, List.mem_map] at hb
        obtain ⟨a, ha, rfl⟩ := hb
        exact ⟨a.body, Stmt.mem_blocks_of_arm ha, rfl⟩
      · obtain ⟨b', hb', rfl⟩ := Option.map_eq_some_iff.1 (Option.mem_toList.1 hb)
        exact ⟨b', Stmt.mem_blocks_of_else hb', rfl⟩
  | whileLoop sp e b' =>
    rw [Stmt.simplify, roundsWhile] at hb
    split at hb
    · obtain rfl := List.mem_singleton.1 hb
      exact .inl rfl
    · exact .inr (.inr ⟨b', List.mem_singleton.2 rfl, (List.mem_singleton.1 hb).symm⟩)
  -- only a loop that has no rounds makes a block of something else, its initializer
  | forLoop sp i e u b' =>
    rw [Stmt.simplify, roundsFor, simplifyStmtOpt_eq_map] at hb
    split at hb
    · obtain rfl := List.mem_singleton.1 hb
      cases i with
      | none => exact .inl rfl
      | some i => exact .inr (.inl ⟨i, List.mem_cons_self, rfl⟩)
    · exact .inr (.inr ⟨b', List.mem_singleton.2 rfl, (List.mem_singleton.1 hb).symm⟩)
  | _ => exact absurd hb List.not_mem_nil

/-- The clauses of a simplified statement are its simplified clauses. -/
theorem mem_clauses_of_simplify (hx : x ∈ (s.simplify cut).clauses) :
    ∃ y ∈ s.clauses, y.simplify cut = x := by
  cases s with
  | ifChain sp arms o =>
    -- A chain and a block have no clauses, and a `while` none either; only a `for` that stays keeps
    -- its own.
    rcases choice_cases sp (simplifyArms cut arms) (simplifyBlockOpt cut o) with
      ⟨b, hchoice⟩ | ⟨arms', o', hchoice⟩
    · rw [Stmt.simplify, hchoice] at hx
      exact absurd hx List.not_mem_nil
    · rw [Stmt.simplify, hchoice] at hx
      exact absurd hx List.not_mem_nil
  | whileLoop sp e b =>
    rw [Stmt.simplify, roundsWhile] at hx
    split at hx <;> exact absurd hx List.not_mem_nil
  | forLoop sp i e u b =>
    rw [Stmt.simplify, roundsFor] at hx
    split at hx
    · exact absurd hx List.not_mem_nil
    · simpa [Stmt.clauses, or_and_right, exists_or] using hx
  | _ => exact absurd hx List.not_mem_nil

/-- The statements directly inside a simplified statement are simplified ones from inside it. -/
theorem mem_children_of_simplify (hx : x ∈ (s.simplify cut).children) :
    ∃ y ∈ s.children, y.simplify cut = x := by
  rcases List.mem_append.1 hx with hx | hx
  · obtain ⟨y, hy, rfl⟩ := mem_clauses_of_simplify hx
    exact ⟨y, Stmt.mem_children_of_clause hy, rfl⟩
  · obtain ⟨b, hb, hx⟩ := List.mem_flatMap.1 hx
    -- In the second case a `for` never runs and its block holds the initializer alone.
    rcases mem_blocks_of_simplify hb with hempty | ⟨i, hi, hone⟩ | ⟨b', hb', rfl⟩
    · rw [hempty] at hx
      exact absurd hx List.not_mem_nil
    · rw [hone] at hx
      exact ⟨i, Stmt.mem_children_of_clause hi, (List.mem_singleton.1 hx).symm⟩
    · rw [stmts_simplify] at hx
      obtain ⟨y, hy, rfl⟩ := List.mem_map.1 (tidy_subset cut _ hx)
      exact ⟨y, Stmt.mem_children_of_block hb' hy, rfl⟩

/-- Whatever stands inside a simplified statement is a simplified statement from inside it. -/
theorem exists_within_of_simplify (hx : x.Within (s.simplify cut)) :
    ∃ y : Stmt, y.Within s ∧ y.simplify cut = x := by
  generalize hs : s.simplify cut = s' at hx
  induction hx generalizing s with
  | self => exact ⟨s, .self, hs⟩
  | inside hc _ ih =>
    subst hs
    obtain ⟨c, hc, hcs⟩ := mem_children_of_simplify hc
    obtain ⟨y, hy, hyx⟩ := ih hcs
    exact ⟨y, .inside hc hy, hyx⟩

/-- Whatever stands in a simplified program is a simplified statement of the program. -/
theorem exists_contains_of_simplify {p : Program} (hx : (p.simplify cut).Contains x) :
    ∃ y : Stmt, p.Contains y ∧ y.simplify cut = x := by
  obtain ⟨t, ht, hx⟩ := hx
  rw [Program.simplify, simplifyAll_eq_map] at ht
  obtain ⟨s, hs, rfl⟩ := List.mem_map.1 (tidy_subset cut _ ht)
  obtain ⟨y, hy, rfl⟩ := exists_within_of_simplify hx
  exact ⟨y, ⟨s, hs, hy⟩, rfl⟩

end Parts

/-- The statements are a sequence of the program: all of it, or a block at any depth. -/
def Program.HasSequence (p : Program) (ss : List Stmt) : Prop :=
  ss = p.stmts ∨ ∃ s b, p.Contains s ∧ b ∈ s.blocks ∧ b.stmts = ss

/-- Every sequence of a program that is simplified with the cut is trimmed. -/
theorem trimmed_of_simplify {p : Program} {ss : List Stmt}
    (hss : (p.simplify true).HasSequence ss) : Trimmed ss := by
  rcases hss with rfl | ⟨x, b, hx, hb, rfl⟩
  · exact trimmed_cutTail _
  · obtain ⟨s, -, rfl⟩ := exists_contains_of_simplify hx
    -- Every block of the output is empty, holds one initializer, or was cut itself.
    rcases mem_blocks_of_simplify hb with hempty | ⟨i, -, hone⟩ | ⟨b', -, rfl⟩
    · rw [hempty]
      exact trimmed_nil
    · rw [hone]
      exact trimmed_singleton _
    · rw [stmts_simplify]
      exact trimmed_cutTail _

/-- Nothing is left to simplify in the program, and with `cut` its sequences are trimmed. -/
structure Program.NormalForm (cut : Bool) (p : Program) : Prop where
  /-- No expression can be replaced. -/
  irreducible : ∀ e ∈ p.nodes, e.Irreducible
  /-- No choice and no loop is decided by a literal condition. -/
  undecided : ∀ s, p.Contains s → s.Undecided
  /-- What follows a jump or a return does so for the sake of a function. -/
  trimmed : cut = true → ∀ ss, p.HasSequence ss → Trimmed ss

/-- Every program is simplified to its normal form, at every depth: in the bodies of functions, in
the initializers and steps of loops, and in the tails that are kept. -/
theorem Program.normalForm_simplify (cut : Bool) (p : Program) :
    (p.simplify cut).NormalForm cut where
  irreducible := (irreducible_simplifyAll cut p.stmts).tidy cut
  undecided s hs := by
    obtain ⟨x, -, rfl⟩ := exists_contains_of_simplify hs
    exact undecided_simplify cut x
  trimmed hcut ss hss := by
    subst hcut
    exact trimmed_of_simplify hss

/-- In `{ return; void f() {} return; f(); }` all four statements are kept for the sake of `f`, so
the second return has a call after it, and no function. -/
theorem exists_untrimmed_tail :
    ∃ before t after,
      (Program.simplify true ⟨[.func ⟨0, 50⟩ ⟨"g", [], .void, ⟨0, 50⟩⟩
        ⟨[.ret ⟨11, 18⟩ none,
          .func ⟨19, 30⟩ ⟨"f", [], .void, ⟨19, 30⟩⟩ ⟨[], ⟨28, 30⟩⟩,
          .ret ⟨31, 38⟩ none,
          .call ⟨39, 43⟩ ⟨"f", [], ⟨39, 42⟩⟩], ⟨9, 50⟩⟩]⟩).HasSequence (before ++ t :: after) ∧
      t.isTerminator = true ∧ after ≠ [] ∧ after.any Stmt.isFunction = false :=
  ⟨[.ret ⟨11, 18⟩ none, .func ⟨19, 30⟩ ⟨"f", [], .void, ⟨19, 30⟩⟩ ⟨[], ⟨28, 30⟩⟩],
    .ret ⟨31, 38⟩ none, [.call ⟨39, 43⟩ ⟨"f", [], ⟨39, 42⟩⟩],
    .inr ⟨_, _, ⟨_, List.mem_singleton.2 rfl, .self⟩, List.mem_singleton.2 rfl, rfl⟩, rfl,
    List.cons_ne_nil _ _, rfl⟩

end Procedural
