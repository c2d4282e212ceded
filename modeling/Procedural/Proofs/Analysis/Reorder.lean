import Procedural.Proofs.Analysis.Annotation
import Procedural.Proofs.Analysis.Isolation

/-! # The place of a function declaration

The functions of a sequence are declared before anything in it is analyzed, so it does not matter
where among the statements one of them is declared, as long as no variable and no function of the
same name is declared in between.

* `Context.Matches`: contexts that differ at most in their reports and in the order of bindings.
* `Rearranges`: two checks that do the same up to the order of what they do. Checks that do not
  depend on each other can change places (`Rearranges.commute`).
* `analysis_moves_function`: the statement for sequences. -/

namespace Procedural

variable {α β γ δ : Type} {x : Check α} {y : Check β} {c c' : Context} {N Nx Ny : List String}
  {bs bs' ds dx dy : List Binding} {P : α → Prop} {Q : β → Prop} {R : γ → δ → Prop}

/-! ## Bindings -/

/-- A name stands for its declaration in the innermost frame, and otherwise for its declaration in
the frames around that one. -/
theorem Scopes.lookup_eq_or_outer (s : Scopes) (n : String) :
    s.lookup n = (s.lookupLocal n).or (s.outer.findSome? (List.lookup n)) := by
  rw [lookup, ← innermost_cons_tail, List.findSome?_cons, lookupLocal]
  cases s.innermost.lookup n <;> rfl

/-- A name that is not bound is not found. -/
theorem lookup_reverse_eq_none {n : String} (h : ∀ b ∈ bs, b.1 ≠ n) :
    bs.reverse.lookup n = none :=
  List.lookup_eq_none_iff.2 fun b hb => bne_iff_ne.2 (h b (List.mem_reverse.1 hb)).symm

/-- Bindings of different names can be made in either order. -/
theorem lookup_reverse_append_comm (h : ∀ b ∈ bs, ∀ b' ∈ bs', b.1 ≠ b'.1) (n : String) :
    (bs ++ bs').reverse.lookup n = (bs' ++ bs).reverse.lookup n := by
  rw [List.reverse_append, List.reverse_append, List.lookup_append, List.lookup_append]
  by_cases hn : ∃ b ∈ bs, b.1 = n
  · obtain ⟨b, hb, rfl⟩ := hn
    rw [lookup_reverse_eq_none fun b' hb' => (h b hb b' hb').symm, Option.none_or, Option.or_none]
  · rw [lookup_reverse_eq_none fun b hb hbn => hn ⟨b, hb, hbn⟩, Option.none_or, Option.or_none]

namespace Context

/-- New bindings stand in front of the innermost frame, the last one first. -/
theorem innermost_bindAll (c : Context) (bs : List Binding) :
    (c.bindAll bs).scopes.innermost = bs.reverse ++ c.scopes.innermost := by
  induction bs generalizing c with
  | nil => rfl
  | cons b bs ih =>
    have hbind : (c.bind b).scopes.innermost = b :: c.scopes.innermost :=
      Scopes.innermost_withInnermost ..
    rw [bindAll_cons, ih, hbind, List.reverse_cons, List.append_assoc]
    rfl

/-- New bindings leave the outer frames. -/
theorem outer_bindAll (c : Context) (bs : List Binding) :
    (c.bindAll bs).scopes.outer = c.scopes.outer := by
  induction bs generalizing c with
  | nil => rfl
  | cons b bs ih => exact (ih (c.bind b)).trans (c.scopes.outer_bind b)

/-- New bindings do not enter a loop. -/
theorem isInLoop_bindAll (c : Context) (bs : List Binding) :
    (c.bindAll bs).isInLoop = c.isInLoop := by
  rw [isInLoop, loops_bindAll, isInLoop]

/-- The last of several bindings of a name counts. -/
theorem lookupLocal_bindAll (c : Context) (bs : List Binding) (n : String) :
    (c.bindAll bs).scopes.lookupLocal n =
      (bs.reverse.lookup n).or (c.scopes.lookupLocal n) := by
  rw [Scopes.lookupLocal, innermost_bindAll, List.lookup_append]
  rfl

/-- Bindings of other names and reports do not matter. -/
theorem Alike.tell_bindAll (h : c.Alike N c') (hbs : ∀ b ∈ bs, b.1 ∉ N) (new : Log) :
    c.Alike N ((c'.bindAll bs).tell new) := by
  -- a name of `N` is bound by none of them, so the innermost frame answers as before
  have hlocal : ∀ n ∈ N, (c'.bindAll bs).scopes.lookupLocal n = c'.scopes.lookupLocal n := by
    intro n hn
    rw [lookupLocal_bindAll, lookup_reverse_eq_none, Option.none_or]
    rintro b hb rfl
    exact hbs b hb hn
  refine ⟨fun n hn => ?_, fun n hn => (h.lookupLocal n hn).trans (hlocal n hn).symm, ?_, ?_⟩
  · rw [h.lookup n hn]
    show c'.scopes.lookup n = (c'.bindAll bs).scopes.lookup n
    rw [Scopes.lookup_eq_or_outer, Scopes.lookup_eq_or_outer, hlocal n hn, outer_bindAll]
  · exact h.isInLoop.trans (isInLoop_bindAll c' bs).symm
  · exact h.returns.trans (returns_bindAll c' bs).symm

end Context

/-! ## Contexts that match -/

/-- The contexts differ at most in what has been reported and in the order of bindings in the
innermost frame. -/
structure Context.Matches (c c' : Context) : Prop where
  /-- Names stand for the same in the innermost frame. -/
  lookupLocal : ∀ n, c.scopes.lookupLocal n = c'.scopes.lookupLocal n
  /-- The frames around the innermost one are the same. -/
  outer : c.scopes.outer = c'.scopes.outer
  /-- As many loops enclose the current statement. -/
  loops : c.loops = c'.loops
  /-- The enclosing functions have the same result type. -/
  returns : c.returns = c'.returns

namespace Context.Matches

/-- A context matches itself. -/
theorem refl (c : Context) : c.Matches c := ⟨fun _ => rfl, rfl, rfl, rfl⟩

/-- Contexts that match are alike for all names. -/
theorem alike (h : c.Matches c') (N : List String) : c.Alike N c' where
  lookup n _ := by
    rw [Scopes.lookup_eq_or_outer, Scopes.lookup_eq_or_outer, h.lookupLocal, h.outer]
  lookupLocal n _ := h.lookupLocal n
  isInLoop := by rw [Context.isInLoop, Context.isInLoop, h.loops]
  returns := h.returns

/-- Reports do not matter. -/
theorem tell (h : c.Matches c') (new new' : Log) : (c.tell new).Matches (c'.tell new') :=
  ⟨h.lookupLocal, h.outer, h.loops, h.returns⟩

/-- The order of new bindings does not matter. -/
theorem bindAll (h : c.Matches c')
    (hlookup : ∀ n, bs.reverse.lookup n = bs'.reverse.lookup n) :
    (c.bindAll bs).Matches (c'.bindAll bs') where
  lookupLocal n := by
    rw [Context.lookupLocal_bindAll, Context.lookupLocal_bindAll, hlookup, h.lookupLocal]
  outer := by rw [Context.outer_bindAll, Context.outer_bindAll, h.outer]
  loops := by rw [Context.loops_bindAll, Context.loops_bindAll, h.loops]
  returns := by rw [Context.returns_bindAll, Context.returns_bindAll, h.returns]

end Context.Matches

/-! ## Independent checks -/

/-- How a check with a specification runs in all contexts that are alike for the names it depends
on. -/
theorem DependsOn.runs (h : DependsOn N x) (hends : Ends ds x P) (c : Context) :
    ∃ a bs new, P a ∧ bs ⊆ ds ∧ ∀ c', c.Alike N c' → x c' = .ok a ((c'.bindAll bs).tell new) := by
  obtain ⟨a, bs, new, hrun, ⟨hsub, -⟩, ha⟩ := hends c
  obtain ⟨bs', new', hd, hsame⟩ := h hrun
  -- the bindings can be read off the frame that they were added to
  have hbs : bs = bs' := by
    have hinner : ((c.bindAll bs).tell new).scopes.innermost =
        ((c.bindAll bs').tell new').scopes.innermost := congrArg (·.scopes.innermost) hd
    change (c.bindAll bs).scopes.innermost = (c.bindAll bs').scopes.innermost at hinner
    rw [Context.innermost_bindAll, Context.innermost_bindAll] at hinner
    exact List.reverse_injective (List.append_cancel_right hinner)
  subst hbs
  exact ⟨a, bs, new', ha, hsub.subset, hsame⟩

/-- The bindings are of names among `N`, and of none among `N'`. -/
def Apart (ds : List Binding) (N N' : List String) : Prop := ∀ b ∈ ds, b.1 ∈ N ∧ b.1 ∉ N'

/-- What is known of the answer of a check may be added to its specification. -/
theorem Ends.answering (h : Ends ds x P) {S : α → Prop} (hanswers : Answers x S) : Ends ds x S := by
  intro c
  obtain ⟨a, bs, new, hrun, hbs, -⟩ := h c
  exact ⟨a, bs, new, hrun, hbs, hanswers hrun⟩

/-! ## Checks in another order -/

/-- Run in `c` and in `c'`, both checks end without a fault, with answers of which `R` holds, with
the same reports up to their order, and in contexts that match. -/
def Rearranged (act : Check γ) (act' : Check δ) (R : γ → δ → Prop) (c c' : Context) : Prop :=
  ∃ a a' d d' new new', act c = .ok a d ∧ act' c' = .ok a' d' ∧ R a a' ∧ d.Matches d' ∧
    d.log = c.log ++ new ∧ d'.log = c'.log ++ new' ∧ new.Perm new'

/-- The two checks do the same up to the order of what they do, in contexts that match. -/
def Rearranges (act : Check γ) (act' : Check δ) (R : γ → δ → Prop) : Prop :=
  ∀ ⦃c c'⦄, c.Matches c' → Rearranged act act' R c c'

namespace Rearranges

variable {act k : Check γ} {act' k' : Check δ} {f : α → Check γ} {f' : α → Check δ} {new new' : Log}

/-- The checks have come to where they go on as `k` and `k'`. -/
theorem resume (h : Rearranges k k' R) (hmatch : c.Matches c')
    (hlookup : ∀ n, bs.reverse.lookup n = bs'.reverse.lookup n) (hperm : new.Perm new')
    (hact : act c = k ((c.bindAll bs).tell new))
    (hact' : act' c' = k' ((c'.bindAll bs').tell new')) : Rearranged act act' R c c' := by
  obtain ⟨a, a', d, d', more, more', hrun, hrun', hR, hend, hmore, hmore', hperms⟩ :=
    h ((hmatch.bindAll hlookup).tell new new')
  refine ⟨a, a', d, d', new ++ more, new' ++ more', hact.trans hrun, hact'.trans hrun', hR, hend,
    ?_, ?_, hperm.append hperms⟩
  · rw [hmore, Context.log_bindAll_tell, List.append_assoc]
  · rw [hmore', Context.log_bindAll_tell, List.append_assoc]

/-- Nothing is left to do, and the answers are related. -/
theorem pure {a : γ} {a' : δ} (h : R a a') : Rearranges (Pure.pure a) (Pure.pure a') R := by
  intro c c' hmatch
  exact ⟨a, a', c, c', [], [], rfl, rfl, h, hmatch, (List.append_nil _).symm,
    (List.append_nil _).symm, List.Perm.refl _⟩

/-- Both start with the same check. -/
theorem same (hx : DependsOn N x) (hends : Ends ds x P)
    (h : ∀ a, P a → Rearranges (f a) (f' a) R) : Rearranges (x >>= f) (x >>= f') R := by
  intro c c' hmatch
  obtain ⟨a, bs, new, ha, -, hrun⟩ := hx.runs hends c
  have hact : (x >>= f) c = f a ((c.bindAll bs).tell new) :=
    bind_of_ok (hrun c ((Context.Matches.refl c).alike N))
  exact (h a ha).resume hmatch (fun _ => rfl) (.refl new) hact
    (bind_of_ok (hrun c' (hmatch.alike N)))

/-- Two checks change places. Neither binds a name that the other depends on. -/
theorem commute {f : α → β → Check γ} {f' : α → β → Check δ}
    (hx : DependsOn Nx x) (hxends : Ends dx x P) (hdx : Apart dx Nx Ny)
    (hy : DependsOn Ny y) (hyends : Ends dy y Q) (hdy : Apart dy Ny Nx)
    (h : ∀ a b, P a → Q b → Rearranges (f a b) (f' a b) R) :
    Rearranges (x >>= fun a => y >>= fun b => f a b) (y >>= fun b => x >>= fun a => f' a b) R := by
  intro c c' hmatch
  obtain ⟨a, bs, new, ha, hbs, hxrun⟩ := hx.runs hxends c
  obtain ⟨b, bs', new', hb, hbs', hyrun⟩ := hy.runs hyends c
  have hnames : ∀ b ∈ bs, ∀ b' ∈ bs', b.1 ≠ b'.1 := by
    intro b hb b' hb' heq
    exact (hdx b (hbs hb)).2 (heq ▸ (hdy b' (hbs' hb')).1)
  have hperm : (new ++ new').Perm (new' ++ new) := List.perm_append_comm
  -- whichever runs second does not see what the first one has added
  refine (h a b ha hb).resume hmatch (lookup_reverse_append_comm hnames) hperm ?_ ?_
  · rw [bind_of_ok (hxrun c ((Context.Matches.refl c).alike Nx))]
    refine (bind_of_ok (hyrun _ ?_)).trans (congrArg _ (Context.tell_bindAll_tell ..))
    exact ((Context.Matches.refl c).alike Ny).tell_bindAll (fun b hb => (hdx b (hbs hb)).2) new
  · rw [bind_of_ok (hyrun c' (hmatch.alike Ny))]
    refine (bind_of_ok (hxrun _ ?_)).trans (congrArg _ (Context.tell_bindAll_tell ..))
    exact (hmatch.alike Nx).tell_bindAll (fun b hb => (hdy b (hbs' hb)).2) new'

end Rearranges

/-! ## Moving a function -/

/-- The declaration of a function named `n` can be moved past the statement, which declares no
variable and no function of that name. -/
def Stmt.Passable (n : String) : Stmt → Prop
  | .var _ _ => False
  | .func _ g _ => g.name ≠ n
  | _ => True

/-- Statements that a function can be moved past bind no variables. -/
theorem flatMap_bindings_of_passable {n : String} {ss : List Stmt} (h : ∀ s ∈ ss, s.Passable n) :
    ss.flatMap Stmt.bindings = [] := by
  refine List.flatMap_eq_nil_iff.2 fun s hs => ?_
  cases s with
  | var sp d => exact (h _ hs).elim
  | _ => rfl

/-- Statements that a function can be moved past declare functions of other names. -/
theorem functionBindings_of_passable {n : String} {ss : List Stmt} (h : ∀ s ∈ ss, s.Passable n) :
    ∀ b ∈ functionBindings ss, b.1 ≠ n := by
  intro b hb
  obtain ⟨g, hg, rfl⟩ := List.mem_map.1 hb
  obtain ⟨sp, body, hs⟩ := Stmt.exists_func_of_mem_headers hg
  exact h _ hs

/-- Declarations in two parts. -/
theorem declareAll_append (bs bs' : List Binding) :
    declareAll (bs ++ bs') = declareAll bs >>= fun _ => declareAll bs' := by
  induction bs with
  | nil => simp [declareAll]
  | cons b bs ih => simp [declareAll, ih]

/-- `ss` and `ss'` are made of the same statements, which come from `pre`, `f`, `mid` and `post`
and have types recorded in them; in `ss` the one from `f` stands before those from `mid`, and in
`ss'` after them. -/
def Moved (pre : List Stmt) (f : Stmt) (mid post ss ss' : List Stmt) : Prop :=
  ∃ pre' f' mid' post', ss = pre' ++ (f' :: mid' ++ post') ∧ ss' = pre' ++ (mid' ++ f' :: post') ∧
    Stmt.bareAll pre' = Stmt.bareAll pre ∧ f'.bare = f.bare ∧
    Stmt.bareAll mid' = Stmt.bareAll mid ∧ Stmt.bareAll post' = Stmt.bareAll post

section Sequences

variable {h : FuncHeader} {mid : List Stmt}

/-- The functions are declared in another order. -/
theorem rearranges_declareAll (hmid : ∀ s ∈ mid, s.Passable h.name) {k : Check γ} {k' : Check δ}
    (hk : Rearranges k k' R) :
    Rearranges
      (declareAll [h.binding] >>= fun _ => declareAll (functionBindings mid) >>= fun _ => k)
      (declareAll (functionBindings mid) >>= fun _ => declareAll [h.binding] >>= fun _ => k')
      R := by
  -- neither side declares a name that the other one depends on
  have hone : Apart [h.binding] [h.name] ((functionBindings mid).map Prod.fst) := by
    refine List.forall_mem_singleton.2 ⟨List.mem_singleton.2 rfl, fun hmem => ?_⟩
    obtain ⟨b, hb, hname⟩ := List.mem_map.1 hmem
    exact functionBindings_of_passable hmid b hb hname
  have hothers : Apart (functionBindings mid) ((functionBindings mid).map Prod.fst) [h.name] := by
    refine fun b hb => ⟨List.mem_map_of_mem hb, fun hmem => ?_⟩
    exact functionBindings_of_passable hmid b hb (List.mem_singleton.1 hmem)
  exact .commute (dependsOn_declareAll fun b hb => (hone b hb).1) (ends_declareAll _) hone
    (dependsOn_declareAll fun b hb => (hothers b hb).1) (ends_declareAll _) hothers
    fun _ _ _ _ => hk

/-- The function and the statements that it is moved past are analyzed in another order. -/
theorem rearranges_analyzeStmts (hmid : ∀ s ∈ mid, s.Passable h.name) (sp : Span) (b : Block)
    {k : Stmt → List Stmt → Check γ} {k' : Stmt → List Stmt → Check δ}
    (hk : ∀ f' mid', f'.bare = (Stmt.func sp h b).bare → Stmt.bareAll mid' = Stmt.bareAll mid →
      Rearranges (k f' mid') (k' f' mid') R) :
    Rearranges
      ((Stmt.func sp h b).analyzeIn true >>= fun f' => analyzeAllIn mid >>= fun mid' => k f' mid')
      (analyzeAllIn mid >>= fun mid' => (Stmt.func sp h b).analyzeIn true >>= fun f' => k' f' mid')
      R := by
  have hf := (ends_analyzeStmt (.func sp h b)).answering (answers_analyzeStmt _)
  have hss := (ends_analyzeStmts mid).answering (answers_analyzeStmts mid)
  rw [flatMap_bindings_of_passable hmid] at hss
  exact .commute (dependsOn_analyzeStmt _ (List.Subset.refl _)) hf (List.forall_mem_nil _)
    (dependsOn_analyzeStmts mid (List.Subset.refl _)) hss (List.forall_mem_nil _)
    fun f' mid' hf' hmid' => hk f' mid' hf'.bare_eq hmid'.bare_eq

/-- Moving a function past statements that declare no variable and no function of its name
rearranges the analysis of the sequence. -/
theorem rearranges_analyzeSequence (hmid : ∀ s ∈ mid, s.Passable h.name) (sp : Span) (b : Block)
    (pre post : List Stmt) :
    Rearranges (analyzeSequence (pre ++ (.func sp h b :: mid ++ post)))
      (analyzeSequence (pre ++ (mid ++ .func sp h b :: post)))
      (Moved pre (.func sp h b) mid post) := by
  have hfunction (ss : List Stmt) :
      functionBindings (.func sp h b :: ss) = [h.binding] ++ functionBindings ss := rfl
  -- written out step by step, the two analyses differ in two places: where the function is declared
  -- and where it is analyzed
  have hbefore : analyzeSequence (pre ++ (.func sp h b :: mid ++ post)) = (do
      declareAll (functionBindings pre)
      declareAll [h.binding]
      declareAll (functionBindings mid)
      declareAll (functionBindings post)
      let pre' ← analyzeAllIn pre
      let f' ← (Stmt.func sp h b).analyzeIn true
      let mid' ← analyzeAllIn mid
      let post' ← analyzeAllIn post
      return pre' ++ (f' :: mid' ++ post')) := by
    rw [analyzeSequence, functionBindings_append, functionBindings_append, hfunction,
      declareAll_append, declareAll_append, declareAll_append]
    simp [analyzeAllIn_append, analyzeAllIn]
  have hafter : analyzeSequence (pre ++ (mid ++ .func sp h b :: post)) = (do
      declareAll (functionBindings pre)
      declareAll (functionBindings mid)
      declareAll [h.binding]
      declareAll (functionBindings post)
      let pre' ← analyzeAllIn pre
      let mid' ← analyzeAllIn mid
      let f' ← (Stmt.func sp h b).analyzeIn true
      let post' ← analyzeAllIn post
      return pre' ++ (mid' ++ f' :: post')) := by
    rw [analyzeSequence, functionBindings_append, functionBindings_append, hfunction,
      declareAll_append, declareAll_append, declareAll_append]
    simp [analyzeAllIn_append, analyzeAllIn]
  rw [hbefore, hafter]
  have hpre := (ends_analyzeStmts pre).answering (answers_analyzeStmts pre)
  have hpost := (ends_analyzeStmts post).answering (answers_analyzeStmts post)
  refine .same (dependsOn_functions (List.Subset.refl _)) (ends_declareAll _) fun _ _ => ?_
  refine rearranges_declareAll hmid ?_
  refine .same (dependsOn_functions (List.Subset.refl _)) (ends_declareAll _) fun _ _ => ?_
  -- only the function and the statements it passes have changed places here
  refine .same (dependsOn_analyzeStmts pre (List.Subset.refl _)) hpre fun pre' hpre' => ?_
  refine rearranges_analyzeStmts hmid sp b fun f' mid' hf' hmid' => ?_
  refine .same (dependsOn_analyzeStmts post (List.Subset.refl _)) hpost fun post' hpost' => ?_
  exact .pure ⟨pre', f', mid', post', rfl, rfl, hpre'.bare_eq, hf', hmid', hpost'.bare_eq⟩

/-- The place of a function declaration among statements that declare no variable and no function of
its name does not matter, whatever stands before and after them and whatever the context. The same
types are recorded in each statement, the same is reported, up to the order of reports, and every
name stands for the same in the innermost frame afterwards. -/
theorem analysis_moves_function (hmid : ∀ s ∈ mid, s.Passable h.name) (sp : Span) (b : Block)
    (pre post : List Stmt) (ctx : Context) :
    ∃ ss ss' c c' new new',
      analyzeSequence (pre ++ (.func sp h b :: mid ++ post)) ctx = .ok ss c ∧
      analyzeSequence (pre ++ (mid ++ .func sp h b :: post)) ctx = .ok ss' c' ∧
      Moved pre (.func sp h b) mid post ss ss' ∧ c.Matches c' ∧
      c.log = ctx.log ++ new ∧ c'.log = ctx.log ++ new' ∧ new.Perm new' :=
  rearranges_analyzeSequence hmid sp b pre post (.refl ctx)

end Sequences

/-- Of two functions that call each other, and a call of the first one, the first can stand last. -/
theorem moves_first_function :
    let s : Span := ⟨0, 0⟩
    let f : FuncHeader := ⟨"f", [], .void, s⟩
    let g : FuncHeader := ⟨"g", [], .void, s⟩
    let calls : String → Block := fun n => ⟨[.call s ⟨n, [], s⟩], s⟩
    let mid : List Stmt := [.func s g (calls "f"), .call s ⟨"f", [], s⟩]
    (∀ t ∈ mid, t.Passable f.name) ∧ ∃ ss ss' c c' new new',
      analyzeSequence ([] ++ (.func s f (calls "g") :: mid ++ [])) .initial = .ok ss c ∧
      analyzeSequence ([] ++ (mid ++ [.func s f (calls "g")])) .initial = .ok ss' c' ∧
      Moved [] (.func s f (calls "g")) mid [] ss ss' ∧ c.Matches c' ∧
      c.log = Context.initial.log ++ new ∧ c'.log = Context.initial.log ++ new' ∧
      new.Perm new' := by
  intro s f g calls mid
  have hname : g.name ≠ f.name := by decide
  have hmid : ∀ t ∈ mid, t.Passable f.name :=
    List.forall_mem_cons.2 ⟨hname, List.forall_mem_singleton.2 trivial⟩
  exact ⟨hmid, analysis_moves_function hmid s (calls "g") [] [] .initial⟩

end Procedural
