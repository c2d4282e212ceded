import Procedural.Report.Label
import Procedural.Text.Line

/-! # Annotated lines

A label on one line is drawn as an **underline** below it. A label across lines is drawn as a
**bracket** in the margin: it opens on its first line, runs past the lines between, and closes on
its last line. `annotate` finds, for the labels of a report, the lines to show and what to draw on
each of them. -/

namespace Procedural

/-- A label on a single line. Columns are byte offsets within the line. -/
structure Underline where
  /-- How much the label matters. -/
  emphasis : Emphasis
  /-- The first column. -/
  start : Nat
  /-- The column just after the last one. -/
  stop : Nat
  /-- The remark. -/
  remark : String
deriving DecidableEq, Repr, Inhabited

/-- What a bracket does on a line. -/
inductive Edge where
  /-- It opens at a column. -/
  | opens (column : Nat)
  /-- It runs past the line. -/
  | runs
  /-- It closes at a column, with a remark. -/
  | closes (column : Nat) (remark : String)
deriving DecidableEq, Repr, Inhabited

/-- A bracket on one line. -/
structure Bracket where
  /-- The place of the bracket in the margin, counted from the left. -/
  place : Nat
  /-- How much the label matters. -/
  emphasis : Emphasis
  /-- What the bracket does on the line. -/
  edge : Edge
deriving DecidableEq, Repr, Inhabited

/-- A line and what is drawn on it. -/
structure AnnotatedLine where
  /-- The line. -/
  line : Line
  /-- The underlines, from left to right. -/
  underlines : List Underline
  /-- The brackets, from left to right. -/
  brackets : List Bracket
deriving DecidableEq, Repr, Inhabited

/-! ## Labels in their lines -/

/-- A label with the lines on which it starts and stops. -/
structure PlacedLabel where
  /-- The label. -/
  label : Label
  /-- The line on which it starts. -/
  first : Line
  /-- The line on which it stops. -/
  last : Line
deriving DecidableEq, Repr, Inhabited

namespace PlacedLabel

/-- Finds the lines of a label. -/
def ofLabel (lines : List Line) (l : Label) : PlacedLabel :=
  ⟨l, .containing lines l.span.start, .containing lines l.span.stop⟩

/-- The label starts and stops on the same line. -/
def isSingle (p : PlacedLabel) : Bool := p.first.index == p.last.index

/-- The underline of a label on a single line; it is at least one column wide. -/
def underline (p : PlacedLabel) : Underline :=
  let start := p.label.span.start - p.first.start
  ⟨p.label.emphasis, start, max (p.label.span.stop - p.first.start) (start + 1), p.label.remark⟩

/-- What the bracket of a label across lines does on the line with index `index`. -/
def edge? (p : PlacedLabel) (index : Nat) : Option Edge :=
  if index = p.first.index then some (.opens (p.label.span.start - p.first.start))
  else if index = p.last.index then
    some (.closes (p.label.span.stop - p.last.start) p.label.remark)
  else if p.first.index < index ∧ index < p.last.index then some .runs
  else none

/-- How many lines after the opening of a bracket are shown. -/
def contextAfter : Nat := 3

/-- How many lines before the closing of a bracket are shown. -/
def contextBefore : Nat := 1

/-- The line with index `index` has to be shown for the label: its first and last line, and of those
between them the ones close to either. -/
def needs (p : PlacedLabel) (index : Nat) : Bool :=
  index = p.first.index || index = p.last.index ||
    (p.first.index < index && index < p.last.index &&
      (index ≤ p.first.index + contextAfter || p.last.index ≤ index + contextBefore))

end PlacedLabel

/-! ## Lines with their annotations -/

/-- An underline is drawn to the left of another: it starts earlier or, starting together, stops no
later. -/
def Underline.precedes (u v : Underline) : Bool :=
  u.start < v.start || (u.start == v.start && u.stop ≤ v.stop)

/-- Underlines with one more in its place, before those it coincides with. -/
def insertUnderline (u : Underline) : List Underline → List Underline
  | [] => [u]
  | v :: vs => if u.precedes v then u :: v :: vs else v :: insertUnderline u vs

/-- The underlines on the line with index `index`, from left to right. -/
def underlinesOn (ps : List PlacedLabel) (index : Nat) : List Underline :=
  (ps.filter fun p => p.isSingle && p.first.index == index).foldl
    (fun us p => insertUnderline p.underline us) []

/-- The labels that are drawn as brackets, from left to right. -/
def bracketed (ps : List PlacedLabel) : List PlacedLabel := ps.filter fun p => !p.isSingle

/-- The brackets on the line with index `index`, from left to right. -/
def bracketsOn (ps : List PlacedLabel) (index : Nat) : List Bracket :=
  (bracketed ps).zipIdx.filterMap fun (p, place) =>
    (p.edge? index).map fun edge => ⟨place, p.label.emphasis, edge⟩

/-- The lines that have to be shown for some label, with everything drawn on them. -/
def annotate (lines : List Line) (ps : List PlacedLabel) : List AnnotatedLine :=
  (lines.filter fun l => ps.any (·.needs l.index)).map fun l =>
    ⟨l, underlinesOn ps l.index, bracketsOn ps l.index⟩

end Procedural
