import Ambient.Grammar.SyntaxError
import Ambient.Token.Buffer
/-!
# Parsers

A parser reads tokens from a buffer. It answers with a value or with an error, and in both cases
with the buffer as it left it: what was consumed before an error stays consumed.
-/

namespace Ambient

/-- What a parser answers. -/
inductive Reply (α : Type) where
  | ok (value : α) (rest : Buffer)
  | fail (error : SyntaxError) (rest : Buffer)

/-- A reader of values of type `α`. -/
def Parser (α : Type) : Type := Buffer → Reply α

namespace Parser

variable {α β : Type}

/-- Answers without reading. -/
def succeed (a : α) : Parser α := fun b => .ok a b

/-- Runs `p`, then the parser chosen by its value. -/
def andThen (p : Parser α) (f : α → Parser β) : Parser β := fun b =>
  match p b with
  | .ok a b => f a b
  | .fail e b => .fail e b

instance : Monad Parser where
  pure := succeed
  bind := andThen

theorem bind_of_ok {p : Parser α} {a : α} {b b' : Buffer} (h : p b = .ok a b')
    (f : α → Parser β) : (p >>= f) b = f a b' := by
  change andThen p f b = _
  rw [andThen, h]

theorem bind_of_fail {p : Parser α} {e : SyntaxError} {b b' : Buffer} (h : p b = .fail e b')
    (f : α → Parser β) : (p >>= f) b = .fail e b' := by
  change andThen p f b = _
  rw [andThen, h]

theorem exists_of_bind_eq_ok {p : Parser α} {f : α → Parser β} {x : β} {b b' : Buffer}
    (h : (p >>= f) b = .ok x b') : ∃ a b₁, p b = .ok a b₁ ∧ f a b₁ = .ok x b' := by
  cases hp : p b with
  | ok a b₁ => exact ⟨a, b₁, rfl, (bind_of_ok hp f).symm.trans h⟩
  | fail e b₁ => cases (bind_of_fail hp f).symm.trans h

/-- Fails without reading. -/
def failWith (e : SyntaxError) : Parser α := fun b => .fail e b

/-- Reads what `read` reads and cannot fail. -/
def ofBuffer (read : Buffer → α × Buffer) : Parser α := fun b =>
  let (a, b) := read b
  .ok a b

/-! ## Looking and consuming -/

/-- The next token. -/
def peek : Parser Token := ofBuffer Buffer.look

/-- The next token, consumed. -/
def consume : Parser Token := ofBuffer Buffer.consume

/-- Runs `p` and sets the cursor back to where it stood. -/
def lookahead (p : Parser α) : Parser α := fun b =>
  let cursor := b.cursor
  match p b with
  | .ok a b => .ok a { b with cursor := cursor }
  | .fail e b => .fail e { b with cursor := cursor }

/-- The next two tokens. -/
def peek2 : Parser (Token × Token) :=
  lookahead do return (← consume, ← consume)

/-- The next three tokens. -/
def peek3 : Parser (Token × Token × Token) :=
  lookahead do return (← consume, ← consume, ← consume)

/-- The next four tokens. -/
def peek4 : Parser (Token × Token × Token × Token) :=
  lookahead do return (← consume, ← consume, ← consume, ← consume)

/-- The kind of the next token. -/
def peekKind : Parser Kind := do return (← peek).kind

/-- Where the cursor stands. -/
def checkpoint : Parser Nat := fun b => .ok b.cursor b

/-- Sets the cursor to where it stood at a checkpoint. -/
def restore (checkpoint : Nat) : Parser Unit := fun b => .ok () { b with cursor := checkpoint }

/-- The text consumed since a checkpoint. -/
def since (checkpoint : Nat) : Parser Span := fun b => .ok (b.since checkpoint) b

/-- The whole source text. -/
def sourceSpan : Parser Span := fun b => .ok b.sourceSpan b

/-- Consumes the next token if it is of the given kind; otherwise leaves it and answers with the
error of a caller that needs it. -/
def tryKind (kind : Kind) : Parser (Option SyntaxError) := do
  let t ← peek
  if t.kind == kind then
    let _ ← consume
    return none
  else return some ⟨.requiredTokenNotFound kind, t.span, some kind⟩

/-- Consumes the next token if it is of the given kind and tells whether it was. -/
def accept (kind : Kind) : Parser Bool := do return (← tryKind kind).isNone

/-- Consumes a token, which must be of the given kind. -/
def require (kind : Kind) : Parser Token := do
  let t ← consume
  if t.kind == kind then return t else failWith (t.unexpected (.requiredTokenNotFound kind))

/-- Consumes a token, whose kind must satisfy `p`. -/
def requireWhere (p : Kind → Bool) (what : String) : Parser Token := do
  let t ← consume
  if p t.kind then return t else failWith (t.unexpected (.expectedSyntax what))

/-- A name and where it stands. Words that are not reserved are names too. -/
def nameWithSpan : Parser (Span × String) := do
  let t ← requireWhere Kind.isName "identifier"
  return (t.span, t.word)

/-- A name. -/
def name : Parser String := do return (← nameWithSpan).2

/-- The end of a statement: a semicolon, or nothing before a line break, a closing brace or the end
of the text. -/
def statementEnd : Parser Unit := do
  if ← accept .semicolon then return ()
  let t ← peek
  if t.newlineBefore || t.kind == .braceClose || t.kind == .endOfFile then return ()
  failWith (t.unexpected (.requiredTokenNotFound .semicolon))

/-! ## Combining -/

/-- Runs `p` and hands the text it consumed to its value. -/
def spanned (p : Parser (Span → α)) : Parser α := do
  let start ← checkpoint
  let make ← p
  return make (← since start)

/-- Runs `p` if the next token is of the given kind, which is consumed. -/
def after (kind : Kind) (p : Parser α) : Parser (Option α) := do
  if ← accept kind then return some (← p) else return none

/-- What a repetition answers that has used up its rounds. No other error has this cause and no
token. -/
def spent : SyntaxError := ⟨.unexpectedEnd, ⟨0, 0⟩, none⟩

/-- Repeats `step` on a value until it is done, at most `rounds` times. -/
def repeatAtMost (step : α → Parser (ForInStep α)) : Nat → α → Parser α
  | 0, _ => failWith spent
  | rounds + 1, a => do
    match ← step a with
    | .yield a => repeatAtMost step rounds a
    | .done a => return a

/-- Repeats `step` on a value until it is done. Every step that goes on consumes a token, so the
buffer's bound on rounds is never met. -/
def repeatFrom (a : α) (step : α → Parser (ForInStep α)) : Parser α := fun b =>
  repeatAtMost step b.rounds a b

/-- Repeats `item` as long as it answers with a value, and collects the values. -/
def collect (item : Parser (Option α)) : Parser (List α) := do
  let items ← repeatFrom [] fun items => do
    match ← item with
    | some a => return .yield (a :: items)
    | none => return .done items
  return items.reverse

/-- Items separated by commas up to and including `close`, whose opening token has been consumed. A
comma may stand before `close`. -/
def commaList (close : Kind) (item : Parser α) : Parser (List α) := do
  let items ← repeatFrom [] fun items => do
    if ← accept close then return .done items
    let a ← item
    if ← accept .comma then return .yield (a :: items)
    let _ ← require close
    return .done (a :: items)
  return items.reverse

/-- One item, and one more after each `separator`. -/
def separated (separator : Kind) (item : Parser α) : Parser (List α) := do
  let first ← item
  let others ← collect (after separator item)
  return first :: others

end Parser

end Ambient
