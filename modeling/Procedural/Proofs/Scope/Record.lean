import Procedural.Scope.History
import Mathlib.Data.List.Induction
import Mathlib.Order.Nat

/-! # Scopes and the record of what was done to them

A **record** is a run of scope operations with the answers to them. Declarations that were made and
the levels they were made at can be read off it, and so can the frames that are live in the end.
Scopes answer as their record says: a name stands for what the first declaration of it says in the
innermost live frame that has one. A frame that is pushed and popped again leaves nothing behind. -/

namespace Procedural.Scopes

variable {s t : Scopes} {op : Op} {x : String} {e e' : Entity} {d i j : Nat}

/-! ## Records -/

/-- A run of operations with the answer to each. -/
abbrev Record := List (Op × Answer)

/-- The record of operations that were answered in the given way. -/
def record (ops : List Op) (answers : List (Answer × Nat)) : Record :=
  ops.zip (answers.map Prod.fst)

namespace Record

variable {h : Record} {r : Op × Answer}

/-- The level of the innermost frame after one more operation. -/
def shift (n : Nat) : Op × Answer → Nat
  | (.push, _) => n + 1
  | (.pop, .popped true) => n - 1
  | _ => n

/-- The level of the innermost frame at the end of a record; the global frame is at level 0. -/
def level (h : Record) : Nat := h.foldl shift 0

/-- The entry `i` of the record declares `x` to be `e`. It did so without being refused, in the
frame at level `d`, and that frame is still live at the end. -/
structure Made (h : Record) (d i : Nat) (x : String) (e : Entity) : Prop where
  /-- The declaration was not refused. -/
  entry : h[i]? = some (.define x e, .defined (.ok ()))
  /-- The frame at level `d` was the innermost one. -/
  level : level (h.take i) = d
  /-- Since then the frame has not been popped. -/
  live : ∀ k, i ≤ k → d ≤ Record.level (h.take k)

/-- A declaration of the name was made in the live frame at level `d`. -/
def Declares (h : Record) (d : Nat) (x : String) : Prop := ∃ i e, Made h d i x e

/-- The first declaration of the name that was made in the live frame at level `d` says `e`. -/
def First (h : Record) (d : Nat) (x : String) (e : Entity) : Prop :=
  ∃ i, Made h d i x e ∧ ∀ j e', Made h d j x e' → i ≤ j

/-- What the record has to say about names. -/
structure Tells (h : Record) (depth : Nat) (lookup lookupLocal : String → Option Entity) :
    Prop where
  /-- The live frames are those at the levels up to that of the innermost one. -/
  depth : depth = h.level + 1
  /-- A name stands for its first declaration in the innermost live frame that has one. -/
  found : ∀ x e, lookup x = some e ↔ ∃ d, First h d x e ∧ ∀ d', d < d' → ¬Declares h d' x
  /-- A name stands for nothing if no live frame has a declaration of it. -/
  missing : ∀ x, lookup x = none ↔ ∀ d, ¬Declares h d x
  /-- In the innermost frame a name stands for its first declaration there. -/
  foundLocal : ∀ x e, lookupLocal x = some e ↔ First h h.level x e
  /-- In the innermost frame a name stands for nothing if it is not declared there. -/
  missingLocal : ∀ x, lookupLocal x = none ↔ ¬Declares h h.level x

/-! ### One more operation -/

/-- The level after one more operation. -/
theorem level_concat (h : Record) (r : Op × Answer) : level (h ++ [r]) = shift (level h) r := by
  simp [level, List.foldl_append]

/-- Live frames are not above the innermost one. -/
theorem Made.le_level (hm : Made h d i x e) : d ≤ h.level := by
  obtain ⟨hi, -⟩ := List.getElem?_eq_some_iff.1 hm.entry
  have hlive := hm.live h.length hi.le
  rwa [List.take_length] at hlive

/-- What has been declared stays declared while its frame is live. The only new declaration is the
one that the operation makes. -/
theorem made_concat : Made (h ++ [r]) d i x e ↔
    (Made h d i x e ∧ d ≤ level (h ++ [r])) ∨
      (i = h.length ∧ r = (.define x e, .defined (.ok ())) ∧ d = h.level) := by
  -- up to the old end the two records have the same beginnings, after it only the new one counts
  have htake : ∀ k, k ≤ h.length → (h ++ [r]).take k = h.take k := fun k hk =>
    List.take_append_of_le_length hk
  have hfull : ∀ k, h.length < k → (h ++ [r]).take k = h ++ [r] := fun k hk =>
    List.take_of_length_le (by simpa using Nat.succ_le_of_lt hk)
  constructor
  · intro hm
    obtain ⟨hi, -⟩ := List.getElem?_eq_some_iff.1 hm.entry
    rw [List.length_append, List.length_singleton] at hi
    have hentry := hm.entry
    have hlevel := hm.level
    rw [htake i (by omega)] at hlevel
    by_cases hlt : i < h.length
    · rw [List.getElem?_append_left hlt] at hentry
      have hend := hm.live (h.length + 1) (by omega)
      rw [hfull _ (Nat.lt_succ_self _)] at hend
      refine .inl ⟨⟨hentry, hlevel, fun k hk => ?_⟩, hend⟩
      by_cases hk' : k ≤ h.length
      · rw [← htake k hk']
        exact hm.live k hk
      · rw [List.take_of_length_le (by omega), ← List.take_length (l := h), ← htake _ le_rfl]
        exact hm.live h.length hlt.le
    · obtain rfl : i = h.length := by omega
      rw [List.getElem?_concat_length] at hentry
      rw [List.take_length] at hlevel
      exact .inr ⟨rfl, Option.some.inj hentry, hlevel.symm⟩
  · rintro (⟨hm, hend⟩ | ⟨rfl, rfl, rfl⟩)
    · obtain ⟨hi, -⟩ := List.getElem?_eq_some_iff.1 hm.entry
      refine ⟨?_, ?_, fun k hk => ?_⟩
      · rw [List.getElem?_append_left hi]
        exact hm.entry
      · rw [htake i hi.le]
        exact hm.level
      · by_cases hk' : k ≤ h.length
        · rw [htake k hk']
          exact hm.live k hk
        · rw [hfull k (by omega)]
          exact hend
    · refine ⟨List.getElem?_concat_length .., ?_, fun k hk => ?_⟩
      · rw [htake _ le_rfl, List.take_length]
      · rcases hk.eq_or_lt with rfl | hk
        · rw [htake _ le_rfl, List.take_length]
        · -- a declaration does not change the level
          rw [hfull k hk, level_concat]
          exact le_rfl

/-- An operation that declares nothing makes no new declaration. -/
theorem made_concat_of_ne (hr : ∀ x e, r ≠ (.define x e, .defined (.ok ()))) :
    Made (h ++ [r]) d i x e ↔ Made h d i x e ∧ d ≤ level (h ++ [r]) := by
  rw [made_concat]
  refine or_iff_left ?_
  rintro ⟨-, rfl, -⟩
  exact hr x e rfl

/-- An operation that declares nothing and pops no frame changes no declaration. -/
theorem made_concat_of_le (hr : ∀ x e, r ≠ (.define x e, .defined (.ok ())))
    (hle : h.level ≤ level (h ++ [r])) : Made (h ++ [r]) d i x e ↔ Made h d i x e := by
  rw [made_concat_of_ne hr]
  exact and_iff_left_of_imp fun hm => hm.le_level.trans hle

end Record

/-! ## Frames by level -/

/-- The frame at a level, where `locals` are pushed on `globals`; there is nothing at levels above
the innermost frame. -/
def frameAt (globals : Frame) : List Frame → Nat → Frame
  | [], d => if d = 0 then globals else []
  | f :: fs, d => if d = fs.length + 1 then f else frameAt globals fs d

/-- There is nothing at a level that has not been reached. -/
theorem frameAt_of_lt {globals : Frame} {locals : List Frame} (hd : locals.length < d) :
    frameAt globals locals d = [] := by
  induction locals with
  | nil => exact if_neg hd.ne'
  | cons f fs ih =>
    rw [List.length_cons] at hd
    rw [frameAt, if_neg hd.ne']
    exact ih (by omega)

/-- Pushing leaves what is declared at each level. -/
theorem frameAt_push (globals : Frame) (locals : List Frame) (d : Nat) :
    frameAt globals ([] :: locals) d = frameAt globals locals d := by
  rw [frameAt]
  split
  · next hd => rw [frameAt_of_lt (by omega)]
  · rfl

/-- Popping takes away what is declared at the innermost level. -/
theorem frameAt_pop (globals f : Frame) (fs : List Frame) (d : Nat) :
    frameAt globals fs d = if d ≤ fs.length then frameAt globals (f :: fs) d else [] := by
  split
  · next hd => rw [frameAt, if_neg (by omega)]
  · next hd => exact frameAt_of_lt (by omega)

/-- The innermost frame is the one at the deepest level. -/
theorem innermost_eq_frameAt (s : Scopes) :
    s.innermost = frameAt s.globals s.locals s.locals.length := by
  obtain ⟨globals, locals⟩ := s
  cases locals <;> simp [innermost, frameAt]

/-- Changing the innermost frame changes what is declared at the deepest level only. -/
theorem frameAt_withInnermost (s : Scopes) (f : Frame) (d : Nat) :
    frameAt (s.withInnermost f).globals (s.withInnermost f).locals d =
      if d = s.locals.length then f else frameAt s.globals s.locals d := by
  obtain ⟨globals, locals⟩ := s
  cases locals with
  | nil =>
    by_cases hd : d = 0 <;> simp [withInnermost, frameAt, hd]
  | cons f' fs =>
    by_cases hd : d = fs.length + 1 <;> simp [withInnermost, frameAt, hd]

/-- Where an entry is followed by empty ones only, it is the last one. -/
theorem exists_last_iff {g : Nat → Option Entity} {n : Nat} (hn : g n = some e')
    (habove : ∀ d, n < d → g d = none) :
    (∃ d, g d = some e ∧ ∀ d', d < d' → g d' = none) ↔ e' = e := by
  constructor
  · rintro ⟨d, hd, hlast⟩
    rcases Nat.lt_trichotomy d n with hlt | rfl | hlt
    · rw [hlast n hlt] at hn
      cases hn
    · exact Option.some.inj (hn.symm.trans hd)
    · rw [habove d hlt] at hd
      cases hd
  · rintro rfl
    exact ⟨n, hn, habove⟩

/-- No name is found at a level that has not been reached. -/
theorem lookup_frameAt_of_lt {globals : Frame} {locals : List Frame} (hd : locals.length < d) :
    (frameAt globals locals d).lookup x = none := by
  rw [frameAt_of_lt hd]
  rfl

/-- A frame that does not declare the name does not matter. -/
theorem lookup_frameAt_cons {globals f : Frame} {fs : List Frame} (hf : f.lookup x = none)
    (d : Nat) : (frameAt globals (f :: fs) d).lookup x = (frameAt globals fs d).lookup x := by
  rw [frameAt]
  split
  · next hd => rw [hf, lookup_frameAt_of_lt (by omega)]
  · rfl

/-- A name is looked up in the innermost frame first. -/
theorem lookup_cons (globals f : Frame) (fs : List Frame) (x : String) :
    lookup ⟨globals, f :: fs⟩ x = (f.lookup x).or (lookup ⟨globals, fs⟩ x) := lookup_eq_or ..

/-- In a lone frame a name is looked up there. -/
theorem lookup_globals (globals : Frame) (x : String) :
    lookup ⟨globals, []⟩ x = globals.lookup x := by
  simp [lookup]

/-- A name stands for its declaration in the highest frame that has one. -/
theorem lookup_eq_some_iff_frameAt (s : Scopes) (x : String) (e : Entity) :
    s.lookup x = some e ↔ ∃ d, (frameAt s.globals s.locals d).lookup x = some e ∧
      ∀ d', d < d' → (frameAt s.globals s.locals d').lookup x = none := by
  obtain ⟨globals, locals⟩ := s
  induction locals with
  | nil =>
    rw [lookup_globals]
    cases hx : globals.lookup x with
    | none =>
      have hnone : ∀ d, (frameAt globals [] d).lookup x = none := by
        intro d
        rw [frameAt]
        split
        · exact hx
        · rfl
      simp [hnone]
    | some e' =>
      rw [exists_last_iff (n := 0) hx fun d hd => lookup_frameAt_of_lt hd, Option.some.injEq]
  | cons f fs ih =>
    rw [lookup_cons]
    cases hf : f.lookup x with
    | none => simpa [lookup_frameAt_cons hf] using ih
    | some e' =>
      -- the innermost frame has the name and is the highest, so no frame above it can have it
      have hself : (frameAt globals (f :: fs) (fs.length + 1)).lookup x = some e' := by
        rw [frameAt, if_pos rfl, hf]
      rw [Option.some_or, exists_last_iff hself fun d hd => lookup_frameAt_of_lt hd,
        Option.some.injEq]

/-- A name stands for nothing if no frame declares it. -/
theorem lookup_eq_none_iff_frameAt (s : Scopes) (x : String) :
    s.lookup x = none ↔ ∀ d, (frameAt s.globals s.locals d).lookup x = none := by
  obtain ⟨globals, locals⟩ := s
  induction locals with
  | nil =>
    rw [lookup_globals]
    refine ⟨fun hx d => ?_, fun h => h 0⟩
    rw [frameAt]
    split
    · exact hx
    · rfl
  | cons f fs ih =>
    rw [lookup_cons]
    cases hf : f.lookup x with
    | none => simpa [lookup_frameAt_cons hf] using ih
    | some e' =>
      -- The innermost frame answers, and its own depth is among those the right side speaks of.
      refine iff_of_false (by simp) fun h => ?_
      have hself := h (fs.length + 1)
      rw [frameAt, if_pos rfl, hf] at hself
      cases hself

/-! ## Scopes agree with their record -/

/-- The frames of the scopes declare what the record says that was declared in them. -/
structure Agrees (s : Scopes) (h : Record) : Prop where
  /-- The innermost frame is at the level that the record says. -/
  level : h.level = s.locals.length
  /-- Frames have the declarations that were made in them. -/
  holds : ∀ d x e, (frameAt s.globals s.locals d).lookup x = some e ↔ ∃ i, Record.Made h d i x e
  /-- No frame declares a name twice. -/
  once : ∀ d x i j e e', Record.Made h d i x e → Record.Made h d j x e' → i = j

namespace Agrees

variable {h : Record} {a : Answer}

/-- A name stands in the innermost frame for a declaration that was made at the present level. -/
theorem lookupLocal (hs : Agrees s h) : s.lookupLocal x = some e ↔ ∃ i, h.Made h.level i x e := by
  rw [Scopes.lookupLocal, innermost_eq_frameAt, hs.holds, hs.level]

/-- An answer that tells of no change. -/
theorem same (hs : Agrees s h) (hr : ∀ x e, (op, a) ≠ (.define x e, .defined (.ok ())))
    (hlevel : Record.shift h.level (op, a) = h.level) : Agrees s (h ++ [(op, a)]) := by
  have hconcat := (Record.level_concat h (op, a)).trans hlevel
  have hmade : ∀ d i x e, Record.Made (h ++ [(op, a)]) d i x e ↔ h.Made d i x e :=
    fun d i x e => Record.made_concat_of_le hr hconcat.ge
  refine ⟨hconcat.trans hs.level, fun d x e => ?_, fun d x i j e e' hi hj => ?_⟩
  · simp only [hmade, hs.holds]
  · exact hs.once d x i j e e' ((hmade ..).1 hi) ((hmade ..).1 hj)

/-- Pushing keeps the scopes in agreement with the record. -/
theorem push (hs : Agrees s h) : Agrees s.push (h ++ [(.push, .done)]) := by
  have hconcat := Record.level_concat h (.push, .done)
  have hmade : ∀ d i x e, Record.Made (h ++ [(.push, .done)]) d i x e ↔ h.Made d i x e :=
    fun d i x e => Record.made_concat_of_le (by simp) (hconcat ▸ Nat.le_succ _)
  refine ⟨?_, fun d x e => ?_, fun d x i j e e' hi hj => ?_⟩
  · rw [hconcat]
    exact congrArg (· + 1) hs.level
  · -- the new frame is as empty as the level was on which it lies
    simp only [hmade, ← hs.holds]
    rw [Scopes.push, frameAt_push]
  · exact hs.once d x i j e e' ((hmade ..).1 hi) ((hmade ..).1 hj)

/-- Popping keeps the scopes in agreement with the record. -/
theorem pop (hs : Agrees s h) (hpop : s.pop? = some t) :
    Agrees t (h ++ [(.pop, .popped true)]) := by
  obtain ⟨globals, locals⟩ := s
  cases locals with
  | nil => cases hpop
  | cons f fs =>
    cases hpop
    have hlevel : Record.level (h ++ [(.pop, .popped true)]) = fs.length := by
      rw [Record.level_concat]
      show h.level - 1 = fs.length
      rw [hs.level]
      rfl
    have hmade : ∀ d i x e, Record.Made (h ++ [(.pop, .popped true)]) d i x e ↔
        h.Made d i x e ∧ d ≤ fs.length := by
      intro d i x e
      rw [← hlevel]
      exact Record.made_concat_of_ne (by simp)
    refine ⟨hlevel, fun d x e => ?_, fun d x i j e e' hi hj => ?_⟩
    · -- what was made on the level that is left is no longer held, and the other levels are as
      -- they were
      have hd := hs.holds d x e
      simp only [hmade, frameAt_pop globals f fs d]
      by_cases hle : d ≤ fs.length
      · simpa [hle] using hd
      · simp [hle]
    · exact hs.once d x i j e e' ((hmade ..).1 hi).1 ((hmade ..).1 hj).1

/-- A declaration that is not refused is the first one of its name in the frame. -/
theorem define (hs : Agrees s h) (hlocal : s.lookupLocal x = none) :
    Agrees (s.withInnermost ((x, e) :: s.innermost))
      (h ++ [(.define x e, .defined (.ok ()))]) := by
  have hconcat := Record.level_concat h (.define x e, .defined (.ok ()))
  -- the declarations made are those before and the new one, on the level of the innermost frame
  have hmade : ∀ d i y e', Record.Made (h ++ [(.define x e, .defined (.ok ()))]) d i y e' ↔
      h.Made d i y e' ∨ (i = h.length ∧ (x = y ∧ e = e') ∧ d = s.locals.length) := by
    intro d i y e'
    have hle : h.Made d i y e' → d ≤ Record.level (h ++ [(.define x e, .defined (.ok ()))]) :=
      fun hm => hconcat ▸ hm.le_level
    rw [Record.made_concat, and_iff_left_of_imp hle, hs.level]
    simp
  -- the record has no declaration of the name on this level, or the frame would have one
  have hnew : ∀ i e', ¬h.Made s.locals.length i x e' := by
    intro i e' hm
    rw [← hs.level] at hm
    have hsome := hs.lookupLocal.2 ⟨i, hm⟩
    rw [hlocal] at hsome
    cases hsome
  refine ⟨?_, fun d y e' => ?_, fun d y i j e₁ e₂ hi hj => ?_⟩
  · rw [hconcat]
    have hdepth := depth_withInnermost s ((x, e) :: s.innermost)
    simp only [depth] at hdepth
    show h.level = _
    rw [hs.level]
    omega
  · rw [frameAt_withInnermost]
    simp only [hmade, exists_or, ← hs.holds]
    by_cases hd : d = s.locals.length
    · subst hd
      rw [if_pos rfl, ← innermost_eq_frameAt]
      by_cases hy : y = x
      · subst hy
        have hnone : List.lookup y s.innermost = none := hlocal
        simp [hnone]
      · have hb : (y == x) = false := by simpa using hy
        have hxy : x ≠ y := Ne.symm hy
        simp [List.lookup_cons, hb, hxy]
    · simp [hd]
  · -- the new declaration is the only one of its name in its frame
    rcases (hmade ..).1 hi with hi | ⟨rfl, ⟨rfl, rfl⟩, rfl⟩ <;>
      rcases (hmade ..).1 hj with hj | ⟨rfl, ⟨hy, -⟩, hd⟩
    · exact hs.once d y i j e₁ e₂ hi hj
    · subst hy hd
      exact absurd hi (hnew i e₁)
    · exact absurd hj (hnew j e₂)
    · rfl

/-- Scopes agree with their record after every operation. -/
theorem step (hs : Agrees s h) (op : Op) : Agrees (s.step op).2 (h ++ [(op, (s.step op).1)]) := by
  cases op with
  | push => exact hs.push
  | pop =>
    rw [Scopes.step]
    cases hpop : s.pop? with
    | none => exact hs.same (by simp) rfl
    | some t => exact hs.pop hpop
  | define x e =>
    rw [Scopes.step, Scopes.define]
    cases hlocal : s.lookupLocal x with
    | none => exact hs.define hlocal
    | some old => exact hs.same (by simp) rfl
  | lookup x => exact hs.same (by simp) rfl
  | lookupLocal x => exact hs.same (by simp) rfl

/-- Scopes that agree with their record tell of names what the record tells. -/
theorem tells (hs : Agrees s h) : h.Tells s.depth s.lookup s.lookupLocal := by
  -- a frame declares a name once, so every declaration is the first one
  have hfirst : ∀ d x e, h.First d x e ↔ (frameAt s.globals s.locals d).lookup x = some e := by
    intro d x e
    rw [hs.holds]
    constructor
    · rintro ⟨i, hi, -⟩
      exact ⟨i, hi⟩
    · rintro ⟨i, hi⟩
      exact ⟨i, hi, fun j e' hj => (hs.once d x i j e e' hi hj).le⟩
  have hnone : ∀ d x, (frameAt s.globals s.locals d).lookup x = none ↔ ¬h.Declares d x := by
    intro d x
    rw [Option.eq_none_iff_forall_ne_some, Record.Declares]
    simp only [ne_eq, hs.holds, not_exists]
    exact forall_comm
  have hlocal : ∀ x, s.lookupLocal x = (frameAt s.globals s.locals h.level).lookup x := by
    intro x
    rw [Scopes.lookupLocal, innermost_eq_frameAt, hs.level]
  constructor
  case depth => rw [depth, hs.level]
  case found =>
    intro x e
    simp only [lookup_eq_some_iff_frameAt, hfirst, hnone]
  case missing =>
    intro x
    simp only [lookup_eq_none_iff_frameAt, hnone]
  case foundLocal =>
    intro x e
    rw [hlocal, hfirst]
  case missingLocal =>
    intro x
    rw [hlocal, hnone]

end Agrees

/-! ## Runs -/

/-- Every operation is answered. -/
@[simp] theorem length_answers (s : Scopes) (ops : List Op) :
    (s.answers ops).length = ops.length := by
  induction ops generalizing s with
  | nil => rfl
  | cons op ops ih => simp [answers, ih]

/-- The answers to operations in two parts. -/
theorem answers_append (s : Scopes) (ops ops' : List Op) :
    s.answers (ops ++ ops') = s.answers ops ++ (s.after ops).answers ops' := by
  induction ops generalizing s with
  | nil => rfl
  | cons op ops ih =>
    rw [List.cons_append, answers, answers, ih, List.cons_append]
    rfl

/-- The scopes after operations in two parts. -/
theorem after_append (s : Scopes) (ops ops' : List Op) :
    s.after (ops ++ ops') = (s.after ops).after ops' := List.foldl_append

/-- The record of a run ends with the last operation and its answer. -/
theorem record_concat (s : Scopes) (ops : List Op) (op : Op) :
    record (ops ++ [op]) (s.answers (ops ++ [op])) =
      record ops (s.answers ops) ++ [(op, ((s.after ops).step op).1)] := by
  rw [record, answers_append, List.map_append, List.zip_append (by simp)]
  rfl

/-- Scopes agree with the record of the run that they come from. -/
theorem agrees_after (ops : List Op) :
    (empty.after ops).Agrees (record ops (empty.answers ops)) := by
  induction ops using List.reverseRecOn with
  | nil =>
    refine ⟨rfl, fun d x e => ?_, fun d x i j e e' hi => ?_⟩
    · -- there are no declarations and none have been made
      have hempty : frameAt [] [] d = [] := by
        rw [frameAt]
        split <;> rfl
      refine iff_of_false (by simp [empty, after, hempty]) ?_
      rintro ⟨i, hi⟩
      cases hi.entry
    · cases hi.entry
  | append_singleton ops op ih =>
    rw [record_concat, after_append]
    exact ih.step op

/-! ### Declarations -/

/-- A declaration is made when the innermost frame has none of the name. -/
theorem step_define_of_none (e : Entity) (hlocal : s.lookupLocal x = none) :
    (s.step (.define x e)).1 = .defined (.ok ()) := by
  rw [step, define, hlocal]

/-- A declaration is refused, and nothing happens, when the innermost frame has one of the name. -/
theorem step_define_of_some (e : Entity) (hlocal : s.lookupLocal x = some e') :
    s.step (.define x e) = (.defined (.error ⟨e'.span⟩), s) := by
  rw [step, define, hlocal]

/-! ## Balanced runs -/

/-- Runs in which every pop takes away a frame that was pushed in them, and which leave no frame
behind. -/
inductive Balanced : List Op → Prop where
  /-- Nothing is done. -/
  | nil : Balanced []
  /-- An operation that neither pushes nor pops comes first. -/
  | quiet {op : Op} {ops : List Op} (hpush : op ≠ .push) (hpop : op ≠ .pop)
      (hops : Balanced ops) : Balanced (op :: ops)
  /-- A frame is pushed and popped first. -/
  | nested {inner ops : List Op} (hinner : Balanced inner) (hops : Balanced ops) :
      Balanced (.push :: (inner ++ .pop :: ops))

/-- An operation that neither pushes nor pops concerns the innermost frame only. -/
theorem pop?_step (hpush : op ≠ .push) (hpop : op ≠ .pop) (hs : s.pop? = some t) :
    (s.step op).2.pop? = some t := by
  cases op with
  | push => exact absurd rfl hpush
  | pop => exact absurd rfl hpop
  | define x e =>
    rw [step, define]
    -- A declaration reaches the innermost frame only, which the pop drops again.
    cases s.lookupLocal x with
    | some _ => exact hs
    | none =>
      obtain ⟨globals, locals⟩ := s
      cases locals with
      | nil => cases hs
      | cons f fs => exact hs
  | lookup x => exact hs
  | lookupLocal x => exact hs

/-- A balanced run leaves the frames around the innermost one as they were. -/
theorem Balanced.pop?_after {ops : List Op} (h : Balanced ops) (hs : s.pop? = some t) :
    (s.after ops).pop? = some t := by
  induction h generalizing s t with
  | nil => exact hs
  | quiet hpush hpop _ ih => exact ih (pop?_step hpush hpop hs)
  | @nested inner ops _ _ ihinner ihops =>
    -- The stack is generalized: the inner script runs on the pushed one, and its closing pop hands
    -- back `s` itself.
    have hinner : (s.push.after inner).pop? = some s := ihinner (pop?_push s)
    have hstep : ((s.push.after inner).step .pop).2 = s := by
      rw [step, hinner]
    have hafter : s.after (.push :: (inner ++ .pop :: ops)) =
        (((s.push.after inner).step .pop).2).after ops := after_append s.push inner (.pop :: ops)
    rw [hafter, hstep]
    exact ihops hs

/-- A frame that is popped again leaves nothing behind. -/
theorem Balanced.after_eq {inner : List Op} (h : Balanced inner) (s : Scopes) :
    s.after (.push :: (inner ++ [.pop])) = s := by
  have hinner : (s.push.after inner).pop? = some s := h.pop?_after (pop?_push s)
  have hafter : s.after (.push :: (inner ++ [.pop])) = ((s.push.after inner).step .pop).2 :=
    after_append s.push inner [.pop]
  rw [hafter, step, hinner]

end Procedural.Scopes
