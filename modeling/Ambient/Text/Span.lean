/-!
# Spans

A span is a stretch of source text given by UTF-8 byte offsets: where it starts and where it stops.
-/

namespace Ambient

/-- A stretch of source text, from byte offset `start` up to but not including `stop`. -/
structure Span where
  start : Nat
  stop : Nat
deriving DecidableEq, Repr, Inhabited

namespace Span

/-- The smallest span that covers both. -/
def cover (a b : Span) : Span := ⟨min a.start b.start, max a.stop b.stop⟩

/-- The smallest span that covers all of them; the empty span at the start of the text if there
are none. -/
def coverAll : List Span → Span
  | [] => ⟨0, 0⟩
  | s :: rest => rest.foldl cover s

end Span

/-- The number of bytes a piece of text takes in UTF-8. -/
def width : List Char → Nat
  | [] => 0
  | c :: cs => c.utf8Size + width cs

@[simp] theorem width_nil : width [] = 0 := rfl

@[simp] theorem width_cons (c : Char) (cs : List Char) : width (c :: cs) = c.utf8Size + width cs := rfl

@[simp] theorem width_append (a b : List Char) : width (a ++ b) = width a + width b := by
  induction a with
  | nil => simp
  | cons c a ih => simp [ih, Nat.add_assoc]

end Ambient
