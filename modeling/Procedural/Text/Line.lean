import Procedural.Text.Blank

/-! # Lines and columns of a text

A text is cut into **lines** after each line break; the byte offset of a character decides which
line it is on. When a line is shown, tabs reach to the next tab stop, so that each character becomes
a **cell** with a width. -/

namespace Procedural

/-- The number of bytes that characters take in UTF-8. -/
def byteLength : List Char → Nat
  | [] => 0
  | c :: cs => c.utf8Size + byteLength cs

/-- No character takes no byte. -/
@[simp] theorem byteLength_nil : byteLength [] = 0 := rfl

/-- A further character takes its own bytes. -/
@[simp] theorem byteLength_cons (c : Char) (cs : List Char) :
    byteLength (c :: cs) = c.utf8Size + byteLength cs := rfl

/-- The text cut after each line break. The last piece has none and may be empty. -/
def cutLines : List Char → List (List Char)
  | [] => [[]]
  | c :: cs =>
    if c = '\n' then ['\n'] :: cutLines cs
    else
      match cutLines cs with
      | [] => [[c]]
      | l :: ls => (c :: l) :: ls

/-- Cutting loses nothing. -/
theorem flatten_cutLines (cs : List Char) : (cutLines cs).flatten = cs := by
  induction cs with
  | nil => rfl
  | cons c cs ih =>
    unfold cutLines
    split
    · next h => simp [ih, h]
    · split
      · next h => rw [h] at ih; simpa using ih
      · next h => rw [h] at ih; simpa using ih

/-- A line of a text. -/
structure Line where
  /-- How many lines come before it. -/
  index : Nat
  /-- The byte offset at which it starts. -/
  start : Nat
  /-- Its characters, the line break included. -/
  chars : List Char
deriving DecidableEq, Repr, Inhabited

/-- The given pieces of text as lines, the first with index `index` and offset `start`. -/
def Line.place (index start : Nat) : List (List Char) → List Line
  | [] => []
  | l :: ls => ⟨index, start, l⟩ :: place (index + 1) (start + byteLength l) ls

/-- The lines of a text, first to last. -/
def textLines (text : String) : List Line := Line.place 0 0 (cutLines text.toList)

namespace Line

/-- The number of a line, counted from one. -/
def number (l : Line) : Nat := l.index + 1

/-- The last of the lines that start at or before a byte offset. -/
def containing (lines : List Line) (byte : Nat) : Line :=
  ((lines.filter (·.start ≤ byte)).getLast?).getD ⟨0, 0, []⟩

/-- The number of a character among those of its line, counted from one: one more than the
characters that end at or before the byte offset. An offset past the line counts them all. -/
def column (l : Line) (byte : Nat) : Nat := go l.chars l.start + 1
where
  /-- The characters that end at or before the offset, the first of them starting at `start`. -/
  go : List Char → Nat → Nat
    | [], _ => 0
    | c :: cs, start => if start + c.utf8Size ≤ byte then go cs (start + c.utf8Size) + 1 else 0

/-- The characters of a line that are shown: trailing line breaks and null characters are not. -/
def shown (l : Line) : List Char :=
  (l.chars.reverse.dropWhile fun c => c = '\n' || c = '\r' || c = '\x00').reverse

/-- The number of bytes taken by the blanks at the start of the shown characters. -/
def indent (l : Line) : Nat := byteLength (l.shown.takeWhile isBlank)

end Line

/-! ## Cells -/

/-- A shown character: where it stands in its line and how wide it is. -/
structure Cell where
  /-- The character. -/
  char : Char
  /-- The byte offset within the line. -/
  byte : Nat
  /-- The number of columns it takes up. -/
  width : Nat
deriving DecidableEq, Repr, Inhabited

/-- The distance between tab stops. -/
def tabWidth : Nat := 4

/-- The columns that a character takes up when `column` columns precede it: a tab reaches to the
next tab stop, a control character takes up none, and every other character takes up one. -/
def charWidth (column : Nat) (c : Char) : Nat :=
  if c = '\t' then tabWidth - column % tabWidth
  else if c.toNat < 0x20 || (0x7F ≤ c.toNat && c.toNat < 0xA0) then 0
  else 1

/-- The cells of characters, the first of which stands at byte `byte` and column `column`. -/
def cellsFrom (byte column : Nat) : List Char → List Cell
  | [] => []
  | c :: cs =>
    let width := charWidth column c
    ⟨c, byte, width⟩ :: cellsFrom (byte + c.utf8Size) (column + width) cs

/-- The cells of a line. -/
def Line.cells (l : Line) : List Cell := cellsFrom 0 0 l.shown

/-- The text of `n` equal characters. -/
def fill (c : Char) (n : Nat) : String := "".pushn c n

/-- The text of a cell: a tab is shown as blanks. -/
def Cell.text (c : Cell) : String := if c.char = '\t' then fill ' ' c.width else c.char.toString

/-- The text of a line as it is shown. -/
def Line.text (l : Line) : String := String.join (l.cells.map Cell.text)

end Procedural
