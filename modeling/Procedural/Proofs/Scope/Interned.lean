import Procedural.Proofs.Scope.Record
import Procedural.Scope.Interned
import Mathlib.Data.List.Forall2

/-! # Scopes by symbol answer as scopes by name

`Represents t s` says that the frames of `t` have the declarations of the frames of `s`, with
symbols in place of names. Every operation answers the same on both and keeps the relation, whatever
names have been interned on the way. So scopes by symbol, too, answer as the record of what was done
to them says. -/

namespace Procedural

variable {I : Interner} {x : String} {e : Entity} {k : I.Symbol}

/-! ## Interning by position -/

/-- Positions are lawful symbols: the name at a position is one name, and names are added at the
end. -/
theorem Interner.lawful_positions : Interner.positions.Lawful where
  symbol?_intern (names : List String) x := by
    simp only [positions]
    cases hx : names.findIdx? (· == x) with
    | some i => exact hx
    | none => simp [List.findIdx?_append, hx]
  stable (names : List String) x y k hy := by
    simp only [positions] at hy ⊢
    cases names.findIdx? (· == x) with
    | some i => exact hy
    | none =>
      rw [List.findIdx?_append, hy]
      rfl
  injective names x y k hx hy := by
    obtain ⟨_, hx, -⟩ := List.findIdx?_eq_some_iff_getElem.1 hx
    obtain ⟨_, hy, -⟩ := List.findIdx?_eq_some_iff_getElem.1 hy
    exact (beq_iff_eq.1 hx).symm.trans (beq_iff_eq.1 hy)

/-! ## Frames -/

/-- The declaration of a symbol is that of a name with this symbol. -/
def Coded (I : Interner) (names : I.Table) (p : I.Symbol × Entity) (b : Binding) : Prop :=
  I.symbol? names b.1 = some p.1 ∧ p.2 = b.2

/-- A symbol still stands for its name when another name is interned. -/
theorem Coded.intern (hI : I.Lawful) {names : I.Table} {p : I.Symbol × Entity} {b : Binding}
    (h : Coded I names p b) (x : String) : Coded I (I.intern names x).2 p b :=
  ⟨hI.stable names x b.1 p.1 h.1, h.2⟩

/-- The frame has the same declarations, by symbol. -/
abbrev CodedFrame (I : Interner) (names : I.Table) (f : List (I.Symbol × Entity)) (g : Frame) :
    Prop := List.Forall₂ (Coded I names) f g

/-- The declaration of a name is found by its symbol, and a name without a symbol has none. -/
theorem CodedFrame.lookup (hI : I.Lawful) {names : I.Table} {f : List (I.Symbol × Entity)}
    {g : Frame} (h : CodedFrame I names f g) (x : String) :
    ((I.symbol? names x).bind fun k => f.lookup k) = g.lookup x := by
  induction h with
  | nil => cases I.symbol? names x <;> rfl
  | @cons p b f g hp _ ih =>
    obtain ⟨k, e⟩ := p
    obtain ⟨y, e'⟩ := b
    obtain ⟨hy, rfl⟩ := hp
    by_cases hxy : x = y
    · subst hxy
      simp [hy]
    · have hb : (x == y) = false := by simpa using hxy
      rw [List.lookup_cons, hb, ← ih]
      cases hx : I.symbol? names x with
      | none => rfl
      | some k' =>
        -- another name has another symbol, so this binding is passed over
        have hk : k' ≠ k := by
          rintro rfl
          exact hxy (hI.injective names x y k' hx hy)
        have hkb : (k' == k) = false := by simpa using hk
        simp [List.lookup_cons, hkb]

/-- The innermost declaration of a name is found by its symbol. -/
theorem findSome?_coded (hI : I.Lawful) {names : I.Table} {fs : List (List (I.Symbol × Entity))}
    {gs : List Frame} (h : List.Forall₂ (CodedFrame I names) fs gs) (x : String) :
    ((I.symbol? names x).bind fun k => fs.findSome? (List.lookup k)) =
      gs.findSome? (List.lookup x) := by
  induction h with
  | nil => cases I.symbol? names x <;> rfl
  | @cons f g fs gs hf _ ih =>
    rw [List.findSome?_cons, ← hf.lookup hI x, ← ih]
    cases I.symbol? names x <;> rfl

namespace SymbolScopes

open Scopes (Op Answer Balanced)

/-! ## Frames in force -/

/-- The frames of `t` have the declarations of the frames of `s`, by symbol. -/
structure Represents (t : SymbolScopes I) (s : Scopes) : Prop where
  /-- The global frames correspond. -/
  globals : CodedFrame I t.names t.globals s.globals
  /-- The pushed frames correspond. -/
  locals : List.Forall₂ (CodedFrame I t.names) t.locals s.locals

variable {s : Scopes} {t : SymbolScopes I}

/-- Without declarations the symbols represent the names. -/
theorem represents_empty (I : Interner) : (empty I).Represents .empty := ⟨.nil, .nil⟩

namespace Represents

/-- The frames are as many by symbol as by name. -/
theorem depth (h : t.Represents s) : t.depth = s.depth :=
  congrArg (· + 1) h.locals.length_eq

/-- The innermost frame by symbol represents the one by name. -/
theorem innermost (h : t.Represents s) : CodedFrame I t.names t.innermost s.innermost := by
  obtain ⟨names, globals, locals⟩ := t
  obtain ⟨globals', locals'⟩ := s
  obtain ⟨hglobals, hlocals⟩ := h
  cases hlocals with
  | nil => exact hglobals
  | cons hf _ => exact hf

/-- Frames that represent each other can take the place of the innermost ones. -/
theorem withInnermost (h : t.Represents s) {f : List (I.Symbol × Entity)} {g : Frame}
    (hf : CodedFrame I t.names f g) : (t.withInnermost f).Represents (s.withInnermost g) := by
  obtain ⟨names, globals, locals⟩ := t
  obtain ⟨globals', locals'⟩ := s
  obtain ⟨hglobals, hlocals⟩ := h
  cases hlocals with
  | nil => exact ⟨hf, .nil⟩
  | cons _ hfs => exact ⟨hglobals, .cons hf hfs⟩

/-- Names that are interned do not matter. -/
theorem intern (hI : I.Lawful) (h : t.Represents s) (x : String) :
    Represents { t with names := (I.intern t.names x).2 } s where
  globals := h.globals.imp fun _ _ hp => hp.intern hI x
  locals := h.locals.imp fun _ _ hf => hf.imp fun _ _ hp => hp.intern hI x

/-- A name is found in the innermost frame by symbol as it is by name. -/
theorem lookupLocal (hI : I.Lawful) (h : t.Represents s) (x : String) :
    t.lookupLocal x = s.lookupLocal x := h.innermost.lookup hI x

/-- A name is found by symbol as it is by name. -/
theorem lookup (hI : I.Lawful) (h : t.Represents s) (x : String) : t.lookup x = s.lookup x := by
  have hframes : List.Forall₂ (CodedFrame I t.names) (t.locals ++ [t.globals])
      (s.locals ++ [s.globals]) := List.rel_append h.locals (.cons h.globals .nil)
  exact findSome?_coded hI hframes x

/-! ## Operations -/

/-- A new frame by symbol represents a new frame by name. -/
theorem push (h : t.Represents s) : t.push.Represents s.push := ⟨h.globals, .cons .nil h.locals⟩

/-- Both or neither have a frame to pop. -/
theorem pop? (h : t.Represents s) : Option.Rel Represents t.pop? s.pop? := by
  obtain ⟨names, globals, locals⟩ := t
  obtain ⟨globals', locals'⟩ := s
  obtain ⟨hglobals, hlocals⟩ := h
  cases hlocals with
  | nil => exact .none
  | cons _ hfs => exact .some ⟨hglobals, hfs⟩

/-- A declaration is made or refused on both sides, and the name is interned in either case. -/
theorem define (hI : I.Lawful) (h : t.Represents s) (x : String) (e : Entity) :
    (t.step (.define x e)).1 = (s.step (.define x e)).1 ∧
      (t.step (.define x e)).2.Represents (s.step (.define x e)).2 := by
  have hnames := h.intern hI x
  -- now the name has a symbol, by which the innermost frame is searched
  have hsymbol := hI.symbol?_intern t.names x
  have hlookup := hnames.lookupLocal hI x
  rw [SymbolScopes.lookupLocal, hsymbol, Option.bind_some] at hlookup
  rw [step, Scopes.step, SymbolScopes.define, Scopes.define]
  simp only [hlookup]
  cases s.lookupLocal x with
  | some old => exact ⟨rfl, hnames⟩
  | none =>
    refine ⟨rfl, ?_⟩
    have hnew : Coded I (I.intern t.names x).2 ((I.intern t.names x).1, e) (x, e) := ⟨hsymbol, rfl⟩
    exact hnames.withInnermost (.cons hnew hnames.innermost)

/-- Every operation answers the same and keeps the relation. -/
theorem step (hI : I.Lawful) (h : t.Represents s) (op : Op) :
    (t.step op).1 = (s.step op).1 ∧ (t.step op).2.Represents (s.step op).2 := by
  cases op with
  | push => exact ⟨rfl, h.push⟩
  | pop =>
    have hpop := h.pop?
    rw [SymbolScopes.step, Scopes.step]
    generalize t.pop? = t' at hpop
    generalize s.pop? = s' at hpop
    cases hpop with
    | none => exact ⟨rfl, h⟩
    | some hrest => exact ⟨rfl, hrest⟩
  | define x e => exact h.define hI x e
  | lookup x => exact ⟨congrArg Answer.found (h.lookup hI x), h⟩
  | lookupLocal x => exact ⟨congrArg Answer.found (h.lookupLocal hI x), h⟩

/-- The representation lasts through all operations. -/
theorem after (hI : I.Lawful) (h : t.Represents s) (ops : List Op) :
    (t.after ops).Represents (s.after ops) := by
  induction ops generalizing t s with
  | nil => exact h
  | cons op ops ih => exact ih (h.step hI op).2

/-- All runs are answered the same. -/
theorem answers (hI : I.Lawful) (h : t.Represents s) (ops : List Op) :
    t.answers ops = s.answers ops := by
  induction ops generalizing t s with
  | nil => rfl
  | cons op ops ih =>
    obtain ⟨hanswer, hnext⟩ := h.step hI op
    rw [SymbolScopes.answers, Scopes.answers, hanswer, hnext.depth, ih hnext]

end Represents

/-! ## Names stay interned -/

/-- Declaring a name interns it, also when the declaration is refused. -/
theorem names_define (t : SymbolScopes I) (x : String) (e : Entity) :
    (t.define x e).2.names = (I.intern t.names x).2 := by
  simp only [define]
  split
  · rfl
  · exact names_withInnermost ..

/-- No operation takes away or changes the symbol of a name. -/
theorem symbol?_step (hI : I.Lawful) {k : I.Symbol} (hk : I.symbol? t.names x = some k) (op : Op) :
    I.symbol? (t.step op).2.names x = some k := by
  cases op with
  | push => exact hk
  | pop =>
    obtain ⟨names, globals, locals⟩ := t
    cases locals <;> exact hk
  | define y e =>
    rw [step, names_define]
    exact hI.stable t.names y x k hk
  | lookup y => exact hk
  | lookupLocal y => exact hk

/-- A name keeps its symbol through all operations. -/
theorem symbol?_after (hI : I.Lawful) {k : I.Symbol} (hk : I.symbol? t.names x = some k)
    (ops : List Op) : I.symbol? (t.after ops).names x = some k := by
  induction ops generalizing t with
  | nil => exact hk
  | cons op ops ih => exact ih (symbol?_step hI hk op)

/-- A name has a symbol after a run in which it is declared, with or without success, in a frame
that is live or in one that has been popped. -/
theorem symbol?_of_mem (hI : I.Lawful) {ops : List Op} (hmem : Op.define x e ∈ ops)
    (t : SymbolScopes I) : ∃ k, I.symbol? (t.after ops).names x = some k := by
  induction ops generalizing t with
  | nil => cases hmem
  | cons op ops ih =>
    rcases List.mem_cons.1 hmem with rfl | hmem
    · have hnow : I.symbol? (t.step (.define x e)).2.names x = some (I.intern t.names x).1 := by
        rw [step, names_define]
        exact hI.symbol?_intern t.names x
      exact ⟨_, symbol?_after hI hnow ops⟩
    · exact ih hmem (t.step op).2

/-! ## Main result -/

/-- A lone frame is not popped, and nothing changes. -/
theorem step_pop_of_depth (hdepth : t.depth = 1) : t.step .pop = (.popped false, t) := by
  obtain ⟨names, globals, locals⟩ := t
  cases locals with
  | nil => rfl
  | cons f fs => simp [depth] at hdepth

/-- Popping is refused exactly when there is a lone frame. -/
theorem step_pop_eq_false_iff : (t.step .pop).1 = .popped false ↔ t.depth = 1 := by
  obtain ⟨names, globals, locals⟩ := t
  cases locals <;> simp [step, pop?, depth]

/-- Scopes by symbol after any run of operations. What names stand for, in all frames and in the
innermost one, is what the record of the run tells. A name can be declared exactly when the
innermost frame does not declare it; otherwise the older declaration is answered and no later answer
is affected. Only the lone global frame cannot be popped, and nothing happens then. A frame that is
pushed and popped again, with whatever was done in between, affects no later answer, although the
names that were declared keep their symbols. All answers are those of scopes by name. -/
theorem answers_as_recorded (hI : I.Lawful) (ops : List Op) :
    let t := (empty I).after ops
    (Scopes.record ops ((empty I).answers ops)).Tells t.depth t.lookup t.lookupLocal ∧
    (∀ x e, ((t.step (.define x e)).1 = .defined (.ok ()) ↔ t.lookupLocal x = none) ∧
      ∀ old, t.lookupLocal x = some old →
        (t.step (.define x e)).1 = .defined (.error ⟨old.span⟩) ∧
          ∀ later, (t.step (.define x e)).2.answers later = t.answers later) ∧
    (((t.step .pop).1 = .popped false ↔ t.depth = 1) ∧ (t.depth = 1 → (t.step .pop).2 = t)) ∧
    (∀ inner, Balanced inner →
      ∀ later, (t.after (.push :: (inner ++ [.pop]))).answers later = t.answers later) ∧
    (∀ x e, .define x e ∈ ops → ∃ k, I.symbol? t.names x = some k) ∧
    ∀ later, t.answers later = (Scopes.empty.after ops).answers later := by
  intro t
  -- the scopes by symbol represent the scopes by name all along, so each part is one about names
  have hrep : t.Represents (Scopes.empty.after ops) := (represents_empty I).after hI ops
  refine ⟨?_, fun x e => ⟨?_, fun old hold => ?_⟩, ⟨step_pop_eq_false_iff, fun hdepth => ?_⟩,
    fun inner hinner later => ?_, fun x e hmem => symbol?_of_mem hI hmem _, hrep.answers hI⟩
  · have hlookup : t.lookup = (Scopes.empty.after ops).lookup := funext (hrep.lookup hI)
    have hlocal : t.lookupLocal = (Scopes.empty.after ops).lookupLocal :=
      funext (hrep.lookupLocal hI)
    rw [(represents_empty I).answers hI, hrep.depth, hlookup, hlocal]
    exact (Scopes.agrees_after ops).tells
  · rw [(hrep.define hI x e).1, hrep.lookupLocal hI]
    cases hlocal : (Scopes.empty.after ops).lookupLocal x with
    | none => simp [Scopes.step_define_of_none e hlocal]
    | some old => simp [Scopes.step_define_of_some e hlocal]
  · rw [hrep.lookupLocal hI] at hold
    have hrefused := Scopes.step_define_of_some e hold
    obtain ⟨hanswer, hnext⟩ := hrep.define hI x e
    rw [hrefused] at hanswer hnext
    exact ⟨hanswer, fun later => (hnext.answers hI later).trans (hrep.answers hI later).symm⟩
  · rw [step_pop_of_depth hdepth]
  · have hback := hrep.after hI (.push :: (inner ++ [.pop]))
    rw [hinner.after_eq] at hback
    exact (hback.answers hI later).trans (hrep.answers hI later).symm

/-- A global name that is declared again, twice, in a pushed frame. -/
def shadowing : List Op :=
  [.define "n" ⟨.var, .int, ⟨0, 5⟩⟩, .push, .define "n" ⟨.var, .real, ⟨8, 14⟩⟩,
    .define "n" ⟨.var, .bool, ⟨16, 22⟩⟩]

/-- The first of the inner declarations counts, also when one more is tried; a declaration in a
frame that is popped again changes nothing. -/
theorem recorded_shadowing : Interner.positions.Lawful ∧
    let t := (empty .positions).after shadowing
    let h : Scopes.Record := Scopes.record shadowing ((empty .positions).answers shadowing)
    (∃ d, h.First d "n" ⟨.var, .real, ⟨8, 14⟩⟩ ∧ ∀ d', d < d' → ¬h.Declares d' "n") ∧
    (t.step (.define "n" ⟨.var, .char, ⟨24, 30⟩⟩)).1 = .defined (.error ⟨⟨8, 14⟩⟩) ∧
    ∀ later, (t.after (.push :: ([.define "n" ⟨.var, .char, ⟨24, 30⟩⟩] ++ [.pop]))).answers later =
      t.answers later := by
  have hI := Interner.lawful_positions
  obtain ⟨htells, hdefine, -, hback, -⟩ := answers_as_recorded hI shadowing
  have hbalanced : Balanced [.define "n" ⟨.var, .char, ⟨24, 30⟩⟩] :=
    .quiet (by simp) (by simp) .nil
  exact ⟨hI, (htells.found "n" _).1 rfl, ((hdefine "n" _).2 _ rfl).1, hback _ hbalanced⟩

end SymbolScopes

end Procedural
