import Procedural.Scope.History

/-! # Scopes by symbol

Frames can declare **symbols** in place of names. One table gives symbols to the names, for all
frames; a name that is declared gets its symbol there and keeps it, also when the declaration is
refused or its frame is popped. `SymbolScopes` has the operations of `Scopes` on such frames. -/

namespace Procedural

/-- What gives symbols to names. -/
structure Interner where
  /-- The tables. -/
  Table : Type
  /-- The symbols. -/
  Symbol : Type
  /-- Whether two symbols are the same can be found out. -/
  symbolEq : DecidableEq Symbol
  /-- The table at the start. -/
  empty : Table
  /-- The symbol of a name, which gets one now if it has none, and the table afterwards. -/
  intern : Table → String → Symbol × Table
  /-- The symbol of a name, if it has one. -/
  symbol? : Table → String → Option Symbol

namespace Interner

instance (I : Interner) : DecidableEq I.Symbol := I.symbolEq

/-- What scopes rely on: a name has a symbol once it is interned, it keeps its symbol when names are
interned, and no other name has the same symbol. -/
structure Lawful (I : Interner) : Prop where
  /-- An interned name has the symbol that was answered. -/
  symbol?_intern : ∀ t x, I.symbol? (I.intern t x).2 x = some (I.intern t x).1
  /-- Names keep their symbols. -/
  stable : ∀ t x y k, I.symbol? t y = some k → I.symbol? (I.intern t x).2 y = some k
  /-- A symbol stands for one name. -/
  injective : ∀ t x y k, I.symbol? t x = some k → I.symbol? t y = some k → x = y

/-- The names in the order in which they were interned; the symbol of a name is its position. -/
def positions : Interner where
  Table := List String
  Symbol := Nat
  symbolEq := inferInstance
  empty := []
  intern names x :=
    match names.findIdx? (· == x) with
    | some i => (i, names)
    | none => (names.length, names ++ [x])
  symbol? names x := names.findIdx? (· == x)

end Interner

/-- The frames in force and the symbols of the names. -/
structure SymbolScopes (I : Interner) where
  /-- The symbols that names have. -/
  names : I.Table
  /-- The global frame. -/
  globals : List (I.Symbol × Entity)
  /-- The pushed frames, innermost first. -/
  locals : List (List (I.Symbol × Entity))

namespace SymbolScopes

variable {I : Interner}

/-- The frames of a fresh program: a global frame without declarations. -/
def empty (I : Interner) : SymbolScopes I := ⟨I.empty, [], []⟩

/-- The number of frames in force. -/
def depth (s : SymbolScopes I) : Nat := s.locals.length + 1

/-- The frame that takes declarations. -/
def innermost (s : SymbolScopes I) : List (I.Symbol × Entity) :=
  match s.locals with
  | [] => s.globals
  | f :: _ => f

/-- The frames with `f` in place of the innermost one. -/
def withInnermost (s : SymbolScopes I) (f : List (I.Symbol × Entity)) : SymbolScopes I :=
  match s.locals with
  | [] => { s with globals := f }
  | _ :: fs => { s with locals := f :: fs }

/-- The frames with a new innermost one. -/
def push (s : SymbolScopes I) : SymbolScopes I := { s with locals := [] :: s.locals }

/-- The frames without the innermost one; the global frame cannot be taken away. -/
def pop? (s : SymbolScopes I) : Option (SymbolScopes I) :=
  match s.locals with
  | [] => none
  | _ :: fs => some { s with locals := fs }

/-- The declaration of a name in the innermost frame. -/
def lookupLocal (s : SymbolScopes I) (x : String) : Option Entity :=
  (I.symbol? s.names x).bind fun k => s.innermost.lookup k

/-- The declaration of a name in the innermost frame that has one. -/
def lookup (s : SymbolScopes I) (x : String) : Option Entity :=
  (I.symbol? s.names x).bind fun k => (s.locals ++ [s.globals]).findSome? (List.lookup k)

/-- Declares a name in the innermost frame, unless that frame declares it already. In either case
the name is interned. -/
def define (s : SymbolScopes I) (x : String) (e : Entity) :
    Except AlreadyDefined Unit × SymbolScopes I :=
  let k := (I.intern s.names x).1
  let s := { s with names := (I.intern s.names x).2 }
  match s.innermost.lookup k with
  | some old => (.error ⟨old.span⟩, s)
  | none => (.ok (), s.withInnermost ((k, e) :: s.innermost))

/-- A changed innermost frame leaves the table of names as it was. -/
@[simp] theorem names_withInnermost (s : SymbolScopes I) (f : List (I.Symbol × Entity)) :
    (s.withInnermost f).names = s.names := by
  unfold withInnermost
  split <;> rfl

/-! ## Runs of operations -/

/-- The answer to an operation and the scopes after it. -/
def step (s : SymbolScopes I) : Scopes.Op → Scopes.Answer × SymbolScopes I
  | .push => (.done, s.push)
  | .pop =>
    match s.pop? with
    | some t => (.popped true, t)
    | none => (.popped false, s)
  | .define x e => (.defined (s.define x e).1, (s.define x e).2)
  | .lookup x => (.found (s.lookup x), s)
  | .lookupLocal x => (.found (s.lookupLocal x), s)

/-- The answers to a run of operations, each with the depth after it. -/
def answers (s : SymbolScopes I) : List Scopes.Op → List (Scopes.Answer × Nat)
  | [] => []
  | op :: ops => ((s.step op).1, (s.step op).2.depth) :: (s.step op).2.answers ops

/-- The scopes after a run of operations. -/
def after (s : SymbolScopes I) (ops : List Scopes.Op) : SymbolScopes I :=
  ops.foldl (fun s op => (s.step op).2) s

end SymbolScopes

end Procedural
