import Ambient.Token.Scanner
/-!
# The token buffer

A cursor over the tokens of a source text. Tokens are read from the text when first asked for and
kept, so the cursor can be set back. The end of the text is never passed: consuming `endOfFile`
leaves the cursor on it.
-/

namespace Ambient

/-- A source text under a cursor. `seen` are the tokens read so far, `cursor` counts those consumed
and `scanner` stands behind the last one seen. `size` is the byte length of the text. `rounds`
bounds how often a repetition may go round; no repetition needs more rounds than there are bytes
and a few. -/
structure Buffer where
  size : Nat
  rounds : Nat
  scanner : Scanner
  seen : Array Token
  cursor : Nat
deriving Repr, Inhabited

namespace Buffer

/-- The start of a source text. -/
def ofSource (source : String) : Buffer :=
  { size := source.utf8ByteSize
    rounds := source.utf8ByteSize + 4
    scanner := Scanner.ofSource source
    seen := #[]
    cursor := 0 }

/-- The whole source text. -/
def sourceSpan (b : Buffer) : Span := ⟨0, b.size⟩

/-- The token under the cursor, in a buffer that has seen it. -/
def look (b : Buffer) : Token × Buffer :=
  match b.seen[b.cursor]? with
  | some t => (t, b)
  | none =>
    let (t, scanner) := b.scanner.next
    (t, { b with scanner := scanner, seen := b.seen.push t })

/-- Moves the cursor behind the token `t` that it is on, unless that is the end of the text. -/
def pass (t : Token) (b : Buffer) : Buffer :=
  if t.kind == .endOfFile then b else { b with cursor := b.cursor + 1 }

/-- The token under the cursor, consumed. -/
def consume (b : Buffer) : Token × Buffer :=
  let (t, b) := b.look
  (t, b.pass t)

/-- The text from the token at `start` to the last token consumed. If nothing has been consumed
since, it is empty and stands before the token at `start`, or behind the last token seen if that
one has not been looked at. -/
def since (start : Nat) (b : Buffer) : Span :=
  let first :=
    match b.seen[start]? with
    | some t => t.span.start
    | none => b.scanner.offset
  if start < b.cursor then
    match b.seen[b.cursor - 1]? with
    | some t => ⟨first, t.span.stop⟩
    | none => ⟨first, first⟩
  else ⟨first, first⟩

end Buffer

end Ambient
