import Procedural.Report.Annotation

/-! # Drawing annotated lines

Each annotated line becomes one or more rows of text: the line itself, the carets of its underlines
with their remarks, and the strokes that join brackets to their columns. Every row begins with a
gutter for line numbers, a border, and a margin of two columns for each bracket of the snippet. -/

namespace Procedural

/-- The measures shared by all rows of a snippet. -/
structure Layout where
  /-- The width of the gutter. -/
  gutter : Nat
  /-- The number of brackets in the margin. -/
  places : Nat
deriving DecidableEq, Repr, Inhabited

namespace Layout

/-- A row that begins with `head` at the right edge of the gutter. -/
def row (m : Layout) (head rest : String) : String :=
  fill ' ' (m.gutter - head.length) ++ head ++ " " ++ rest

/-- The margin with the cell that `cell` gives for each place. -/
def margin (m : Layout) (cell : Nat → String) : String :=
  String.join ((List.range m.places).map cell)

/-- The row above the first line of a snippet. -/
def openingRow (m : Layout) : String := m.row "" ("│" ++ m.margin fun _ => "  ")

end Layout

/-! ## Margin cells -/

/-- The bracket with the given place, if it is drawn on the line. -/
def bracketAt (bs : List Bracket) (place : Nat) : Option Bracket := bs.find? (·.place == place)

/-- The margin cell next to a line: a bracket that opens within the indentation opens here. -/
def sourceCell (indent : Nat) (b : Option Bracket) : String :=
  match b.map Bracket.edge with
  | some (.opens column) => if column ≤ indent then " ╭" else "  "
  | some .runs | some (.closes _ _) => " │"
  | none => "  "

/-- The margin cell below a line, next to its carets: brackets that go on are drawn. -/
def caretCell (b : Option Bracket) : String :=
  match b.map Bracket.edge with
  | some .runs | some (.closes _ _) => " │"
  | some (.opens _) | none => "  "

/-- The strokes of a line are drawn from left to right, so beside the stroke of `own` another
bracket is seen if it runs past, has been opened already, or has yet to be closed. -/
def Bracket.passes (own b : Bracket) : Bool :=
  match b.edge with
  | .runs => true
  | .opens _ => b.place < own.place
  | .closes _ _ => own.place < b.place

/-- The margin cell next to the stroke of `own`, which begins at its own place and crosses every
place after it. -/
def strokeCell (own : Bracket) (place : Nat) (b : Option Bracket) : String :=
  if place = own.place then
    match own.edge with
    | .closes _ _ => " ╰"
    | _ => " ╭"
  else if b.any own.passes then
    if own.place < place then "─│" else " │"
  else
    if own.place < place then "──" else "  "

/-! ## Carets -/

/-- Two ranges of columns have one in common. -/
def overlap (start stop start' stop' : Nat) : Bool := max start start' < min stop stop'

/-- Two underlines have a column in common. -/
def Underline.overlaps (u v : Underline) : Bool := overlap u.start u.stop v.start v.stop

/-- The byte offset just after a cell. -/
def Cell.stop (c : Cell) : Nat := c.byte + c.char.utf8Size

/-- An underline covers some of a cell. -/
def Underline.covers (u : Underline) (c : Cell) : Bool := overlap u.start u.stop c.byte c.stop

/-- An underline begins in a cell. -/
def Underline.beginsIn (u : Underline) (c : Cell) : Bool := c.byte ≤ u.start && u.start < c.stop

/-- The place of the underline whose remark stands in the row of carets: the last one to reach
furthest to the right, if it overlaps no other. -/
def trailing? (us : List Underline) : Option Nat :=
  let stop := us.foldl (fun m u => max m u.stop) 0
  match (us.zipIdx.filter fun (u, _) => u.stop == stop).getLast? with
  | some (u, i) => if (us.eraseIdx i).any u.overlaps then none else some i
  | none => none

/-- The underlines whose remarks hang below the row of carets. -/
def hanging (us : List Underline) : List Underline :=
  match trailing? us with
  | some i => us.eraseIdx i
  | none => us

/-- What the row of carets shows in a cell; blanks are written only where a caret follows. -/
def caretText (us : List Underline) (c : Cell) : String :=
  let covering := us.filter (·.covers c)
  if covering.any (·.emphasis == .primary) then fill '^' c.width
  else if !covering.isEmpty then fill '-' c.width
  else if us.any (c.byte < ·.stop) then fill ' ' c.width
  else ""

/-- What a row of pointers shows in a cell: a stroke where a hanging underline begins, and blanks up
to where the last underline begins. -/
def pointerText (us : List Underline) (c : Cell) : String :=
  let pad (n : Nat) : String := if us.any (c.byte ≤ ·.start) then fill ' ' n else ""
  if (hanging us).any (·.beginsIn c) then "│" ++ pad (c.width - 1) else pad c.width

/-- The cell just after the end of a line, where carets may stand too. -/
def Line.endCell (l : Line) : Cell := ⟨' ', byteLength l.shown, 1⟩

/-- The row of carets, with the trailing remark. -/
def caretRow (l : Line) (us : List Underline) : String :=
  String.join ((l.cells ++ [l.endCell]).map (caretText us)) ++
    match (trailing? us).bind (us[·]?) with
    | some u => " " ++ u.remark
    | none => ""

/-- The rows of hanging remarks, the right-most first, below a row of pointers. -/
def hangingRows (l : Line) (us : List Underline) : List String :=
  match hanging us with
  | [] => []
  | hs =>
    String.join (l.cells.map (pointerText us)) ::
      hs.reverse.map fun u =>
        String.join ((l.cells.takeWhile (·.byte < u.start)).map (pointerText us)) ++ u.remark

/-- All rows below a line for its underlines. -/
def underlineRows (l : Line) (us : List Underline) : List String :=
  if us.isEmpty then [] else caretRow l us :: hangingRows l us

/-! ## Strokes of brackets -/

/-- The mark at the end of a stroke. -/
def Emphasis.mark : Emphasis → String
  | primary => "^"
  | secondary => "'"

/-- The stroke from the margin to the column where a bracket opens or closes, and the remark of one
that closes. A bracket that runs past or opens within the indentation has no stroke. -/
def stroke? (l : Line) (b : Bracket) : Option String :=
  let dashes (stop : Nat) : String :=
    String.join ((l.cells.takeWhile (·.byte < stop)).map fun c => fill '─' c.width)
  match b.edge with
  | .runs => none
  | .opens column =>
    if column ≤ l.indent then none else some (dashes (column + 1) ++ b.emphasis.mark)
  | .closes column remark => some (dashes column ++ b.emphasis.mark ++ " " ++ remark)

/-! ## Rows -/

namespace AnnotatedLine

/-- The row with the line itself. -/
def sourceRow (m : Layout) (a : AnnotatedLine) : String :=
  m.row (toString a.line.number)
    ("│" ++ m.margin (fun p => sourceCell a.line.indent (bracketAt a.brackets p)) ++ " " ++
      a.line.text)

/-- The row that stands for lines left out after the line. -/
def breakRow (m : Layout) (a : AnnotatedLine) : String :=
  m.row "" ("·" ++ m.margin fun p => caretCell (bracketAt a.brackets p))

/-- The rows for the underlines of the line. -/
def caretRows (m : Layout) (a : AnnotatedLine) : List String :=
  (underlineRows a.line a.underlines).map fun r =>
    m.row "" ("│" ++ m.margin (fun p => caretCell (bracketAt a.brackets p)) ++ " " ++ r)

/-- The rows for the strokes of the line's brackets. -/
def strokeRows (m : Layout) (a : AnnotatedLine) : List String :=
  a.brackets.filterMap fun b =>
    (stroke? a.line b).map fun r =>
      m.row "" ("│" ++ m.margin (fun p => strokeCell b p (bracketAt a.brackets p)) ++ r)

/-- All rows of the line. -/
def rows (m : Layout) (a : AnnotatedLine) : List String :=
  a.sourceRow m :: a.caretRows m ++ a.strokeRows m

end AnnotatedLine

end Procedural
