import Lexis.Text.Size

set_option autoImplicit false

/-! # Source maps

A source map answers, for byte offsets into a text, on which line and column they are, and for line
numbers, what the line says. It knows the offsets at which lines start; the line of an offset is the
number of starts up to it, which is found by bisection. Columns count characters from the start of
the line, and an offset inside a character, where no column can be counted, has column one. -/

namespace Lexis

/-- A line and a column, both counted from one. -/
structure LineColumn where
  line : Nat
  column : Nat
deriving DecidableEq, Repr

/-- A text with the offsets at which its lines start. -/
structure SourceMap where
  source : List Char
  /-- The starts of the lines, in increasing order. -/
  lineStarts : List Nat
deriving DecidableEq, Repr

namespace SourceMap

/-- The offsets behind the line feeds of a text that itself starts at `offset`. -/
def startsAfter (offset : Nat) : List Char → List Nat
  | [] => []
  | c :: cs =>
    let next := offset + c.utf8Size
    if c = '\n' then next :: startsAfter next cs else startsAfter next cs

/-- The map of a source text. -/
def ofText (cs : List Char) : SourceMap := ⟨cs, 0 :: startsAfter 0 cs⟩

/-- The number of lines; a text that ends with a line feed has an empty last line. -/
def lineCount (m : SourceMap) : Nat := m.lineStarts.length

/-- The number of starts up to an offset, if the starts before `low` are up to it and those from
    `high` on are not. -/
def bisect (starts : List Nat) (offset low high : Nat) : Nat :=
  if low < high then
    let middle := (low + high) / 2
    if starts[middle]?.any (· ≤ offset) then bisect starts offset (middle + 1) high
    else bisect starts offset low middle
  else low
termination_by high - low

/-- The line of an offset. -/
def lineOf (m : SourceMap) (offset : Nat) : Nat := bisect m.lineStarts offset 0 m.lineCount

/-- The offset at which the line of an offset starts. -/
def lineStart (m : SourceMap) (offset : Nat) : Nat := m.lineStarts[m.lineOf offset - 1]?.getD 0

/-- The line and column of an offset; offsets past the end count as the end. -/
def position (m : SourceMap) (offset : Nat) : LineColumn :=
  let offset := min offset (Text.size m.source)
  let before := Text.slice? m.source (m.lineStart offset) offset
  { line := m.lineOf offset
    column := (before.map List.length).getD 0 + 1 }

/-- The text of a line without its line feed; lines are counted from one. -/
def lineText? (m : SourceMap) (line : Nat) : Option (List Char) := do
  guard (0 < line)
  let start ← m.lineStarts[line - 1]?
  let stop := (m.lineStarts[line]?.map (· - 1)).getD (Text.size m.source)
  Text.slice? m.source start stop

end SourceMap

end Lexis
