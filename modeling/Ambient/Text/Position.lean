import Ambient.Text.Span
/-!
# Lines and columns

`LineTable.position` turns a byte offset into a line (from 1) and a column (from 0, in characters).
An offset inside a character counts as the start of that character, one past the end of the text as
its end.
-/

namespace Ambient

/-- A place in a text by line and column. -/
structure Position where
  line : Nat
  column : Nat
deriving DecidableEq, Repr

/-- A stretch of text by lines and columns. -/
structure Range where
  start : Position
  stop : Position
deriving DecidableEq, Repr

/-- The four numbers of a range with colons between them. -/
def Range.text (r : Range) : String :=
  toString r.start.line ++ ":" ++ toString r.start.column ++ ":" ++ toString r.stop.line ++ ":"
    ++ toString r.stop.column

/-- The largest offset of a character in a text, or of its end, that is at most `offset`. -/
def boundaryBelow : List Char → Nat → Nat
  | [], _ => 0
  | c :: cs, offset =>
    if c.utf8Size ≤ offset then c.utf8Size + boundaryBelow cs (offset - c.utf8Size) else 0

/-- The text from byte offset `start` on. -/
def dropBytes : List Char → Nat → List Char
  | [], _ => []
  | c :: cs, start => if start = 0 then c :: cs else dropBytes cs (start - c.utf8Size)

/-- How many characters start before byte offset `stop`. -/
def charsBefore : List Char → Nat → Nat
  | [], _ => 0
  | c :: cs, stop => if stop = 0 then 0 else charsBefore cs (stop - c.utf8Size) + 1

/-- Where the lines of a text start that come after its line feeds, if it starts at `offset`. -/
def lineStartsFrom (offset : Nat) : List Char → List Nat
  | [] => []
  | c :: cs =>
    let next := offset + c.utf8Size
    if c == '\n' then next :: lineStartsFrom next cs else lineStartsFrom next cs

/-- A text with the offsets at which its lines start, in increasing order. -/
structure LineTable where
  text : List Char
  starts : Array Nat

namespace LineTable

/-- The table of a text. The first line starts at 0. -/
def ofText (text : String) : LineTable := ⟨text.toList, (0 :: lineStartsFrom 0 text.toList).toArray⟩

/-- The last of the lines `low` to `high - 1` that starts at `offset` or before it, if line `low`
does. -/
def search (starts : Array Nat) (offset low high : Nat) : Nat :=
  if low + 1 < high then
    let middle := (low + high) / 2
    if starts[middle]?.any (· ≤ offset) then search starts offset middle high
    else search starts offset low middle
  else low
termination_by high - low

/-- The line and column of an offset. -/
def position (table : LineTable) (offset : Nat) : Position :=
  let offset := boundaryBelow table.text offset
  let line := search table.starts offset 0 table.starts.size
  let start := (table.starts[line]?).getD 0
  ⟨line + 1, charsBefore (dropBytes table.text start) (offset - start)⟩

/-- The lines and columns of a span. -/
def range (table : LineTable) (span : Span) : Range :=
  ⟨table.position span.start, table.position span.stop⟩

end LineTable

end Ambient
