import Procedural.Proofs.Analysis.Alike
import Procedural.Proofs.Syntax.Gap

/-! # Statements do not disturb what is around them

A tree with a gap is filled with a statement that declares nothing, and analyzed. The analysis comes
to the gap in the same context whatever is filled in, and the statement leaves nothing but its
reports. So what is reported before and after it, and the types that are recorded around it, do not
depend on the statement.

* `Resumes`: how an analysis goes on after the gap.
* `Isolates`: how the analysis of a tree with a gap depends on the statement that is filled in.
* `SeqGap.analysis_program`: the same for whole programs. -/

namespace Procedural

variable {α β γ δ : Type} {ds : List Binding} {N : List String}

/-! ## After the gap -/

/-- From a context to which any reports are added, the check ends without a fault. What it adds does
not depend on these reports or on the answer that it is given, and its own answer is put together
from that one by a function of which `G` holds. -/
def Resumes (K : α → Check β) (G : (α → β) → Prop) : Prop :=
  ∀ c : Context, ∃ g bs new, G g ∧
    ∀ a extra, K a (c.tell extra) = .ok (g a) ((c.bindAll bs).tell (extra ++ new))

namespace Resumes

variable {G : (α → γ) → Prop} {Q : β → Prop}

/-- After the gap nothing is left but to put the answer together. -/
theorem pure {g : α → γ} (h : G g) : Resumes (fun a => Pure.pure (g a)) G := by
  refine fun c => ⟨g, [], [], h, fun a extra => ?_⟩
  rw [List.append_nil]
  rfl

/-- What is analyzed after the gap does not see what was reported before. -/
theorem bind {y : Check β} {K : α → β → Check γ} (hy : DependsOn N y) (hends : Ends ds y Q)
    (hK : ∀ b, Resumes (fun a => K a b) G) : Resumes (fun a => y >>= K a) G := by
  intro c
  obtain ⟨b, _, _, hrun, -, -⟩ := hends c
  -- the context with the reports is alike to the one without them
  obtain ⟨bs, new, -, hsame⟩ := hy hrun
  obtain ⟨g, bs', new', hg, hrest⟩ := hK b (c.bindAll bs)
  refine ⟨g, bs ++ bs', new ++ new', hg, fun a extra => ?_⟩
  refine (bind_of_ok (hsame _ (.tell_self N c extra))).trans ?_
  rw [Context.bindAll_tell, Context.tell_tell, Context.bindAll_append, ← List.append_assoc]
  exact hrest a (extra ++ new)

end Resumes

/-! ## Around the gap -/

/-- The check is run with a statement that declares nothing. It analyzes the statement in a context
that does not depend on the statement, and makes bindings and reports that do not depend on it
either, except for those of the statement itself. Its answer is something with a gap, which does not
depend on the statement, filled with the analyzed statement. -/
def Isolates (act : Stmt → Check α) (fill : γ → Stmt → α) : Prop :=
  ∀ ctx : Context, ∃ g hole bs before after, hole.log = ctx.log ++ before ∧
    ∀ s : Stmt, s.declared? = none → ∃ s' new, s.analyze hole = .ok s' (hole.tell new) ∧
      act s ctx = .ok (fill g s') ((ctx.bindAll bs).tell (before ++ (new ++ after)))

namespace Isolates

variable {act act' : Stmt → Check α} {fill : γ → Stmt → α} {fill' : δ → Stmt → β}

/-- It does not matter what the check does with declarations. -/
theorem congr (hact : Isolates act' fill) (h : ∀ s : Stmt, s.declared? = none → act s = act' s) :
    Isolates act fill := by
  intro ctx
  obtain ⟨g, hole, bs, before, after, hlog, hrun⟩ := hact ctx
  refine ⟨g, hole, bs, before, after, hlog, fun s hs => ?_⟩
  rw [h s hs]
  exact hrun s hs

/-- The check goes on after the gap. -/
theorem bind {K : α → Check β} (hact : Isolates act fill)
    (hK : ∀ g, Resumes K fun k => ∃ g', ∀ s, k (fill g s) = fill' g' s) :
    Isolates (fun s => act s >>= K) fill' := by
  intro ctx
  obtain ⟨g, hole, bs, before, after, hlog, hrun⟩ := hact ctx
  obtain ⟨k, bs', added, ⟨g', hk⟩, hrest⟩ := hK g (ctx.bindAll bs)
  refine ⟨g', hole, bs ++ bs', before, after ++ added, hlog, fun s hs => ?_⟩
  obtain ⟨s', new, hself, hs'⟩ := hrun s hs
  refine ⟨s', new, hself, (bind_of_ok hs').trans ((hrest _ _).trans ?_)⟩
  rw [hk, Context.bindAll_append, List.append_assoc, List.append_assoc]

/-- The answer is put together from one with a gap. -/
theorem bind_pure {k : α → β} (hact : Isolates act fill)
    (hk : ∀ g, ∃ g', ∀ s, k (fill g s) = fill' g' s) :
    Isolates (fun s => act s >>= fun a => Pure.pure (k a)) fill' :=
  hact.bind fun g => .pure (hk g)

/-- The check comes to the gap after another one. -/
theorem after {y : Check β} {K : β → Stmt → Check α} {Q : β → Prop} (hy : Ends ds y Q)
    (hK : ∀ b, Isolates (K b) fill) : Isolates (fun s => y >>= fun b => K b s) fill := by
  intro ctx
  obtain ⟨b, bs, new, hrun, -, -⟩ := hy ctx
  obtain ⟨g, hole, bs', before, after, hlog, hrest⟩ := hK b ((ctx.bindAll bs).tell new)
  refine ⟨g, hole, bs ++ bs', new ++ before, after, ?_, fun s hs => ?_⟩
  · rw [hlog, Context.log_bindAll_tell, List.append_assoc]
  · obtain ⟨s', new', hself, hs'⟩ := hrest s hs
    refine ⟨s', new', hself, (bind_of_ok hrun).trans (hs'.trans ?_)⟩
    rw [Context.tell_bindAll_tell, List.append_assoc]

/-! ### Brackets -/

/-- The gap is in a scope of its own. -/
theorem inScope (hact : Isolates act fill) : Isolates (fun s => inScope (act s)) fill := by
  intro ctx
  obtain ⟨g, hole, bs, before, after, hlog, hrun⟩ := hact ctx.push
  refine ⟨g, hole, [], before, after, hlog, fun s hs => ?_⟩
  obtain ⟨s', new, hself, hs'⟩ := hrun s hs
  exact ⟨s', new, hself, inScope_adds hs'⟩

/-- The gap is inside a loop. -/
theorem inLoop (hact : Isolates act fill) : Isolates (fun s => inLoop (act s)) fill := by
  intro ctx
  obtain ⟨g, hole, bs, before, after, hlog, hrun⟩ := hact ctx.inside
  refine ⟨g, hole, bs, before, after, hlog, fun s hs => ?_⟩
  obtain ⟨s', new, hself, hs'⟩ := hrun s hs
  exact ⟨s', new, hself, inLoop_adds hs'⟩

/-- The gap is inside a function. -/
theorem inFunction (t : Ty) (hact : Isolates act fill) :
    Isolates (fun s => inFunction t (act s)) fill := by
  intro ctx
  obtain ⟨g, hole, bs, before, after, hlog, hrun⟩ := hact (ctx.enter t)
  refine ⟨g, hole, bs, before, after, hlog, fun s hs => ?_⟩
  obtain ⟨s', new, hself, hs'⟩ := hrun s hs
  exact ⟨s', new, hself, inFunction_adds hs'⟩

end Isolates

/-! ## Sequences and arms in parts -/

/-- Statements in two lists are analyzed one list after the other. -/
theorem analyzeAllIn_append (ss ss' : List Stmt) :
    analyzeAllIn (ss ++ ss') = (do
      let ys ← analyzeAllIn ss
      let zs ← analyzeAllIn ss'
      return ys ++ zs) := by
  induction ss with
  | nil => simp [analyzeAllIn]
  | cons s ss ih => simp [analyzeAllIn, ih]

/-- Conditional arms in two lists are analyzed one list after the other. -/
theorem analyzeArms_append (arms arms' : List Arm) :
    analyzeArms (arms ++ arms') = (do
      let as ← analyzeArms arms
      let bs ← analyzeArms arms'
      return as ++ bs) := by
  induction arms with
  | nil => simp [analyzeArms]
  | cons a arms ih =>
    obtain ⟨e, b⟩ := a
    simp [analyzeArms, ih]

/-! ## Trees with a gap -/

/-- A statement that declares nothing leaves the context as it was, with more reports. -/
theorem isolates_here : Isolates (fun s => s.analyzeIn true) Gap.fill := by
  intro ctx
  refine ⟨.here, ctx, [], [], [], (List.append_nil _).symm, fun s hs => ?_⟩
  have hfunctions : functionBindings [s] = [] := Gap.functionBindings_fill hs .here
  have hbindings : s.bindings = [] := by cases s <;> first | rfl | nomatch hs
  -- as it has no function to declare first, the statement is analyzed alone as in a sequence
  have hself : s.analyze = s.analyzeIn true := by
    rw [Stmt.analyze, analyzeIn_false, hfunctions]
    rfl
  have hends := ends_analyzeAlone s
  rw [hfunctions, hbindings] at hends
  obtain ⟨s', bs, new, hrun, ⟨hsub, -⟩, -⟩ := hends ctx
  obtain rfl := List.sublist_nil.1 hsub
  refine ⟨s', new, hrun, (congrFun hself ctx).symm.trans ?_⟩
  rw [List.append_nil]
  exact hrun

/-- The functions of a body with a gap are declared before the gap is come to. -/
theorem isolates_body (params : List Param) {g : SeqGap}
    (hg : Isolates (fun s => analyzeAllIn (g.fill s)) SeqGap.fill) :
    Isolates (fun s => analyzeBody params (g.fill s)) SeqGap.fill := by
  have hdeclared := Isolates.after (ends_declareAll (params.map Param.binding)) fun _ =>
    .after (ends_declareAll g.functions) fun _ => hg
  refine hdeclared.congr fun s hs => ?_
  rw [analyzeBody, analyzeSequence, g.functionBindings_fill hs]

/-- A loop clause with a gap. -/
theorem isolates_clause {g : Gap} (hg : Isolates (fun s => (g.fill s).analyzeIn true) Gap.fill) :
    Isolates (fun s => analyzeStmtOpt (some (g.fill s))) fun (g' : Gap) s => some (g'.fill s) := by
  have hdeclared := Isolates.after (ends_declareAll g.functions) fun _ => hg
  have hclause : Isolates (fun s => (g.fill s).analyzeIn false) Gap.fill := by
    refine hdeclared.congr fun s hs => ?_
    rw [analyzeIn_false, g.functionBindings_fill hs]
  exact hclause.bind_pure fun g' => ⟨g', fun _ => rfl⟩

mutual

/-- Whatever fills the gap in a statement, the analysis of the rest of the statement is the same. -/
theorem isolates_gap : ∀ g : Gap, Isolates (fun s => (g.fill s).analyzeIn true) Gap.fill
  | .here => isolates_here
  | .func sp f ⟨ss, t⟩ => by
    have hbody := (isolates_body f.params (isolates_seq ss)).inScope.inFunction f.result
    have hfunc : Isolates _ Gap.fill := hbody.bind_pure (k := fun ss => .func sp f ⟨ss, t⟩)
      fun ss' => ⟨.func sp f ⟨ss', t⟩, fun _ => rfl⟩
    exact hfunc.congr fun s _ => analyzeIn_func sp f ⟨ss.fill s, t⟩
  | .block sp b => (isolates_block b).bind_pure fun b' => ⟨.block sp b', fun _ => rfl⟩
  | .arm sp before e b after o => by
    -- the arms before the one with the gap, its condition, its block, and then the other arms
    have harms : Isolates _ Gap.fill := Isolates.after (ends_analyzeArms before) fun before' =>
      .after (ends_analyzeFor e (.boolean "if")) fun e' =>
        (isolates_block b).bind (K := fun b' => do
          let after' ← analyzeArms after
          let o' ← analyzeBlockOpt o
          return .ifChain sp (before' ++ ⟨e', b'⟩ :: after') o') fun b' =>
        .bind (dependsOn_analyzeArms after (List.Subset.refl _)) (ends_analyzeArms after)
          fun after' => .bind (dependsOn_analyzeBlockOpt o (List.Subset.refl _))
            (ends_analyzeBlockOpt o) fun o' => .pure ⟨.arm sp before' e' b' after' o', fun _ => rfl⟩
    exact harms.congr fun s _ => by
      simp [Gap.fill, Stmt.analyzeIn, analyzeArms_append, analyzeArms]
  | .otherwise sp arms b => by
    have helse : Isolates (fun s => analyzeBlockOpt (some (b.fill s)))
        fun (b' : BlockGap) s => some (b'.fill s) :=
      (isolates_block b).bind_pure fun b' => ⟨b', fun _ => rfl⟩
    exact .after (ends_analyzeArms arms) fun arms' => helse.bind_pure fun b' =>
      ⟨.otherwise sp arms' b', fun _ => rfl⟩
  | .whileLoop sp e b =>
    .after (ends_analyzeFor e _) fun e' => (isolates_block b).inLoop.bind_pure fun b' =>
      ⟨.whileLoop sp e' b', fun _ => rfl⟩
  | .forLoop sp i e u b =>
    .inScope <| .after (ends_analyzeStmtOpt i) fun i' => .after (ends_analyzeForOpt _ e) fun e' =>
      (isolates_block b).inLoop.bind fun b' =>
        .bind (dependsOn_analyzeStmtOpt u (List.Subset.refl _)) (ends_analyzeStmtOpt u) fun u' =>
          .pure ⟨.forLoop sp i' e' u' b', fun _ => rfl⟩
  | .initializer sp i e u b =>
    -- the gap is come to first, and all the rest of the loop after it
    .inScope <| (isolates_clause (isolates_gap i)).bind fun i' =>
      .bind (dependsOn_analyzeForOpt _ (List.Subset.refl _)) (ends_analyzeForOpt _ e) fun e' =>
      .bind (dependsOn_analyzeBlock b (List.Subset.refl _)).inLoop (ends_analyzeBlock b).inLoop
        fun b' => .bind (dependsOn_analyzeStmtOpt u (List.Subset.refl _)) (ends_analyzeStmtOpt u)
          fun u' => .pure ⟨.initializer sp i' e' u' b', fun _ => rfl⟩
  | .step sp i e u b =>
    .inScope <| .after (ends_analyzeStmtOpt i) fun i' => .after (ends_analyzeForOpt _ e) fun e' =>
      .after (ends_analyzeBlock b).inLoop fun b' =>
        (isolates_clause (isolates_gap u)).bind_pure fun u' =>
          ⟨.step sp i' e' u' b', fun _ => rfl⟩

/-- Whatever fills the gap in a sequence, the analysis of the rest of the sequence is the same. -/
theorem isolates_seq : ∀ g : SeqGap, Isolates (fun s => analyzeAllIn (g.fill s)) SeqGap.fill
  | ⟨before, g, after⟩ => by
    have hseq : Isolates _ SeqGap.fill := Isolates.after (ends_analyzeStmts before) fun before' =>
      (isolates_gap g).bind (K := fun s => do
        let after' ← analyzeAllIn after
        return before' ++ s :: after') fun g' =>
      .bind (dependsOn_analyzeStmts after (List.Subset.refl _)) (ends_analyzeStmts after)
        fun after' => .pure ⟨⟨before', g', after'⟩, fun _ => rfl⟩
    exact hseq.congr fun s _ => by simp [SeqGap.fill, analyzeAllIn_append, analyzeAllIn]

/-- Whatever fills the gap in a block, the analysis of the rest of the block is the same. -/
theorem isolates_block : ∀ g : BlockGap, Isolates (fun s => (g.fill s).analyze) BlockGap.fill
  | ⟨ss, t⟩ => by
    have hbody := (isolates_body [] (isolates_seq ss)).inScope
    have hblock : Isolates _ BlockGap.fill := hbody.bind_pure (k := fun ss => ⟨ss, t⟩)
      fun ss' => ⟨⟨ss', t⟩, fun _ => rfl⟩
    exact hblock.congr fun s _ => Block.analyze_eq ⟨ss.fill s, t⟩

end

/-- The program with a gap, filled with a statement. -/
def SeqGap.program (g : SeqGap) (s : Stmt) : Program := ⟨g.fill s⟩

/-- Whatever statement fills the gap in a program, well formed or not, as long as it declares
nothing: the analysis comes to it in the same context `hole`, reports what the statement is to blame
for there, and then what it reports after every such statement. The types that are recorded in the
rest of the program do not depend on the statement either. -/
theorem SeqGap.analysis_program (g : SeqGap) :
    ∃ (g' : SeqGap) (hole : Context) (before after : Log), hole.log = before ∧
      ∀ s : Stmt, s.declared? = none → ∃ s' new, s.analyze hole = .ok s' (hole.tell new) ∧
        (g.program s).analysis = .ok ⟨g'.program s', before ++ (new ++ after)⟩ := by
  have hprogram : Isolates (fun s => (g.program s).analyze) SeqGap.program :=
    (isolates_body [] (isolates_seq g)).bind_pure fun g' => ⟨g', fun _ => rfl⟩
  obtain ⟨g', hole, bs, before, after, hlog, hrun⟩ := hprogram .initial
  refine ⟨g', hole, before, after, hlog, fun s hs => ?_⟩
  obtain ⟨s', new, hself, hs'⟩ := hrun s hs
  refine ⟨s', new, hself, ?_⟩
  obtain ⟨q, c, hq, hanalysis⟩ := (g.program s).analysis_ok
  -- the context after the whole program is the one around the gap with all reports told
  cases hq.symm.trans hs'
  have hadded : ((Context.initial.bindAll bs).tell (before ++ (new ++ after))).log =
      before ++ (new ++ after) :=
    congrArg (· ++ (before ++ (new ++ after))) (Context.initial.log_bindAll bs)
  rw [hanalysis, hadded]

/-- A loop with a gap in its body, and a call of a function that is not declared after it. -/
def gapInLoop : SeqGap :=
  ⟨[], .whileLoop ⟨0, 20⟩ (.lit ⟨⟨7, 11⟩, none⟩ (.bool true)) ⟨⟨[], .here, []⟩, ⟨13, 20⟩⟩,
    [.call ⟨21, 24⟩ ⟨"f", [], ⟨21, 24⟩⟩]⟩

/-- The loop is analyzed in the same way whether the gap is filled with an empty block, which is in
order, or with a return, which is not in a function: the return is reported where it stands, and the
call after the loop in both cases. -/
theorem analysis_gapInLoop :
    let empty : Stmt := .block ⟨15, 18⟩ ⟨[], ⟨15, 18⟩⟩
    let leave : Stmt := .ret ⟨15, 18⟩ none
    let blamed : Diagnostic := ⟨.returnOutsideFunction, some ⟨15, 18⟩⟩
    let later : Diagnostic := ⟨.undeclaredIdentifier "f", some ⟨21, 24⟩⟩
    empty.declared? = none ∧ leave.declared? = none ∧
      ∃ (g : SeqGap) (hole : Context), hole.log = [] ∧
        (empty.analyze hole = .ok empty hole ∧
          (gapInLoop.program empty).analysis = .ok ⟨g.program empty, [later]⟩) ∧
        (leave.analyze hole = .ok leave (hole.tell [blamed]) ∧
          (gapInLoop.program leave).analysis = .ok ⟨g.program leave, [blamed, later]⟩) := by
  intro empty leave blamed later
  obtain ⟨g, hole, before, after, hlog, h⟩ := gapInLoop.analysis_program
  obtain ⟨s₀, new₀, hempty, hwhole₀⟩ := h empty rfl
  obtain ⟨s₁, new₁, hleave, hwhole₁⟩ := h leave rfl
  have hquiet : empty.analyze hole = .ok empty hole := rfl
  obtain ⟨rfl, hc⟩ := EStateM.Result.ok.inj (hempty.symm.trans hquiet)
  obtain rfl : new₀ = [] := List.append_right_eq_self.1 (congrArg Context.log hc)
  obtain rfl : s₁ = leave := by
    obtain ⟨scopes, loops, returns, log⟩ := hole
    rcases returns with _ | t
    · exact (EStateM.Result.ok.inj hleave).1.symm
    · cases t <;> exact (EStateM.Result.ok.inj hleave).1.symm
  have hreports₀ : before ++ after = [later] := (Analysis.mk.inj (Except.ok.inj hwhole₀)).2.symm
  have hreports₁ : before ++ (new₁ ++ after) = [blamed, later] :=
    (Analysis.mk.inj (Except.ok.inj hwhole₁)).2.symm
  -- the report about the call comes after the gap, because the one about the return is first
  obtain rfl : before = [] := by
    cases before with
    | nil => rfl
    | cons d before =>
      have hsame : later = blamed :=
        (List.cons.inj hreports₀).1.symm.trans (List.cons.inj hreports₁).1
      exact absurd hsame (by decide)
  obtain rfl : after = [later] := hreports₀
  obtain rfl : new₁ = [blamed] := List.append_cancel_right hreports₁
  exact ⟨rfl, rfl, g, hole, hlog, ⟨hquiet, hwhole₀⟩, hleave, hwhole₁⟩

end Procedural
