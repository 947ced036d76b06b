import Ambient.Proofs.Lockstep
import Ambient.Proofs.Parsers
/-!
# The buffer as a cursor over the token stream

A buffer reads tokens when they are first asked for, keeps them, and can be set back. To a caller
this is the whole token stream with a cursor on it: a `Tape` holds nothing else, and every sequence
of requests gets the same answers from a buffer and from the tape of its source text
(`buffer_refines_tape`). `Buffer.Tracks` is the invariant behind it: what the buffer has read are
the first tokens of the stream, with the end of the text last, if it is among them, and never
passed.
-/

namespace Ambient

/-! ## Standing in the stream -/

/-- The tokens that the buffer has read are the first ones of the stream of `s`, and the scanner
stands behind the last of them. -/
structure Buffer.Views (s : Scanner) (b : Buffer) : Prop where
  scanner : b.scanner = s.after b.seen.size
  seen : ∀ k < b.seen.size, b.seen[k]? = some (s.token k)

/-- The cursor of the buffer is on token `i` of the stream of `s`. -/
structure Buffer.Stands (s : Scanner) (i : Nat) (b : Buffer) : Prop extends Buffer.Views s b where
  cursor : b.cursor = i
  reached : i ≤ b.seen.size

namespace Buffer

variable {s : Scanner} {i : Nat} {b : Buffer}

theorem look_of_lt (h : b.Views s) (hlt : b.cursor < b.seen.size) :
    b.look = (s.token b.cursor, b) := by
  rw [look, h.seen b.cursor hlt]

theorem look_of_le (h : b.Views s) (hle : b.seen.size ≤ b.cursor) :
    b.look = (s.token b.seen.size, { b with
      scanner := s.after (b.seen.size + 1)
      seen := b.seen.push (s.token b.seen.size) }) := by
  rw [look, Array.getElem?_eq_none hle, h.scanner]
  rfl

theorem Views.look (h : b.Views s) : b.look.2.Views s := by
  by_cases hlt : b.cursor < b.seen.size
  · rw [look_of_lt h hlt]
    exact h
  · rw [look_of_le h (by omega)]
    refine ⟨by simp, fun k hk => ?_⟩
    simp only [Array.size_push] at hk
    rw [Array.getElem?_push]
    by_cases hlast : k = b.seen.size
    · rw [if_pos hlast, hlast]
    · rw [if_neg hlast]
      exact h.seen k (by omega)

theorem Views.moved (h : b.Views s) (hi : i ≤ b.seen.size) :
    { b with cursor := i }.Stands s i where
  scanner := h.scanner
  seen := h.seen
  cursor := rfl
  reached := hi

theorem Stands.look (h : b.Stands s i) :
    b.look.1 = s.token i ∧ b.look.2.Stands s i ∧ i < b.look.2.seen.size := by
  have hviews := h.toViews.look
  have hcursor := h.cursor
  have hreached := h.reached
  by_cases hlt : i < b.seen.size
  -- the token was read before
  · rw [look_of_lt h.toViews (by omega)] at hviews ⊢
    exact ⟨congrArg s.token hcursor, h, hlt⟩
  -- it is the next one to be read
  · obtain rfl : i = b.seen.size := by omega
    rw [look_of_le h.toViews (by omega)] at hviews ⊢
    exact ⟨rfl, ⟨hviews, hcursor, by simp⟩, by simp⟩

theorem Stands.consume (h : b.Stands s i) :
    b.consume.1 = s.token i ∧ b.consume.2.Stands s (s.succ i) ∧ i < b.consume.2.seen.size := by
  obtain ⟨htoken, hlook, hlt⟩ := h.look
  change b.look.1 = _ ∧ (b.look.2.pass b.look.1).Stands s (s.succ i) ∧
    i < (b.look.2.pass b.look.1).seen.size
  unfold Buffer.pass Scanner.succ
  rw [htoken]
  by_cases hend : (s.token i).kind = .endOfFile
  · rw [if_pos hend, if_pos (by simpa using hend)]
    exact ⟨rfl, hlook, hlt⟩
  · rw [if_neg hend, if_neg (by simpa using hend), hlook.cursor]
    exact ⟨rfl, hlook.moved hlt, hlt⟩

theorem Stands.since {start : Nat} (h : b.Stands s i) (hlt : start < i) :
    b.since start = s.spanOf start i := by
  have hreached := h.reached
  have hfirst := h.seen start (by omega)
  have hlast := h.seen (i - 1) (by omega)
  rw [Buffer.since, h.cursor, if_pos hlt, hfirst, hlast]
  rfl

end Buffer

/-! ## Tracking the stream -/

/-- The buffer stands on token `i` of the stream of `s`. The end of the text can only be the last
token it has read, and the cursor has not passed it. -/
structure Buffer.Tracks (s : Scanner) (i : Nat) (b : Buffer) : Prop
    extends Buffer.Stands s i b where
  endLast : ∀ k < b.seen.size, (s.token k).kind = .endOfFile → k + 1 = b.seen.size
  endAhead : ∀ k < i, (s.token k).kind ≠ .endOfFile

namespace Buffer

theorem tracks_ofSource (source : String) :
    (ofSource source).Tracks (Scanner.ofSource source) 0 where
  scanner := rfl
  seen k hk := absurd hk (by simp [ofSource])
  cursor := rfl
  reached := Nat.zero_le _
  endLast k hk := absurd hk (by simp [ofSource])
  endAhead k hk := absurd hk (Nat.not_lt_zero k)

namespace Tracks

variable {s : Scanner} {i j : Nat} {b : Buffer}

theorem look (h : b.Tracks s i) : b.look.1 = s.token i ∧ b.look.2.Tracks s i := by
  obtain ⟨htoken, hlook, -⟩ := h.toStands.look
  refine ⟨htoken, hlook, fun k hk hend => ?_, h.endAhead⟩
  have hcursor := h.cursor
  have hreached := h.reached
  by_cases hlt : i < b.seen.size
  · rw [look_of_lt h.toViews (by omega)] at hk ⊢
    exact h.endLast k hk hend
  -- none of the tokens before the one read is the end of the text
  · rw [look_of_le h.toViews (by omega)] at hk ⊢
    simp only [Array.size_push] at hk ⊢
    by_cases hlast : k = b.seen.size
    · rw [hlast]
    · exact absurd hend (h.endAhead k (by omega))

/-- The cursor may be set to any token read that is not behind the end of the text. -/
theorem moved (h : b.Tracks s j) (hi : i ≤ b.seen.size)
    (hahead : ∀ k < i, (s.token k).kind ≠ .endOfFile) : { b with cursor := i }.Tracks s i where
  toStands := h.toViews.moved hi
  endLast := h.endLast
  endAhead := hahead

theorem consume (h : b.Tracks s i) :
    b.consume.1 = s.token i ∧ b.consume.2.Tracks s (s.succ i) := by
  obtain ⟨htoken, hstands, hlt⟩ := h.toStands.consume
  have hlook := h.look.2
  have hseen : b.consume.2.seen = b.look.2.seen := b.seen_consume
  refine ⟨htoken, hstands, ?_, fun k hk => ?_⟩
  · rw [hseen]
    exact hlook.endLast
  · unfold Scanner.succ at hk
    split at hk
    · exact h.endAhead k hk
    · rcases Nat.lt_succ_iff_lt_or_eq.1 hk with hk | rfl
      · exact h.endAhead k hk
      · assumption

end Tracks

end Buffer

/-! ## Parsers over the stream -/

/-- What of a buffer never changes: the bound on rounds and the size of the text. -/
def Buffer.limits (b : Buffer) : Nat × Nat := (b.rounds, b.size)

namespace Buffer

theorem limits_look (b : Buffer) : b.look.2.limits = b.limits := by
  unfold look
  split <;> rfl

theorem limits_consume (b : Buffer) : b.consume.2.limits = b.limits := by
  have hpass : (b.look.2.pass b.look.1).limits = b.look.2.limits := by
    unfold pass
    split <;> rfl
  exact hpass.trans b.limits_look

/-- The buffer `b`, which stands on token `i`, has become `b'`, which stands on token `j`. -/
structure Leads (s : Scanner) (i j : Nat) (b b' : Buffer) : Prop where
  stands : b'.Stands s j
  grows : b.seen.size ≤ b'.seen.size
  limits : b'.limits = b.limits
  tracks : b.Tracks s i → b'.Tracks s j

namespace Leads

variable {s : Scanner} {i j k : Nat} {b b' b'' : Buffer}

theorem refl (h : b.Stands s i) : Leads s i i b b := ⟨h, le_rfl, rfl, fun h => h⟩

theorem trans (h : Leads s i j b b') (h' : Leads s j k b' b'') : Leads s i k b b'' :=
  ⟨h'.stands, h.grows.trans h'.grows, h'.limits.trans h.limits, fun ht => h'.tracks (h.tracks ht)⟩

theorem look (h : b.Stands s i) : Leads s i i b b.look.2 :=
  ⟨h.look.2.1, b.size_seen_look, b.limits_look, fun ht => ht.look.2⟩

theorem consume (h : b.Stands s i) : Leads s i (s.succ i) b b.consume.2 :=
  ⟨h.consume.2.1, b.size_seen_consume, b.limits_consume, fun ht => ht.consume.2⟩

theorem back (h' : Leads s i j b b') (h : b.Stands s i) :
    Leads s i i b { b' with cursor := i } where
  stands := h'.stands.moved (h.reached.trans h'.grows)
  grows := h'.grows
  limits := h'.limits
  tracks ht := (h'.tracks ht).moved (h.reached.trans h'.grows) ht.endAhead

end Leads

end Buffer

/-- From token `i` of the stream the parser gives `a` and stops at token `j`. -/
def Parser.Goes {α : Type} (s : Scanner) (i j : Nat) (p : Parser α) (a : α) : Prop :=
  ∀ b : Buffer, b.Stands s i → ∃ b', p b = .ok a b' ∧ b.Leads s i j b'

namespace Parser.Goes

variable {α β : Type} {s : Scanner} {i j k : Nat}

theorem pure (a : α) : Goes s i i (Pure.pure a) a := fun b hb => ⟨b, rfl, .refl hb⟩

/-- What comes behind a parser whose moves are known. -/
theorem run {p : Parser α} {a : α} (hp : Goes s i j p a) (f : α → Parser β) {b : Buffer}
    (hb : b.Stands s i) : ∃ b', (p >>= f) b = f a b' ∧ b.Leads s i j b' := by
  obtain ⟨b', hp, hleads⟩ := hp b hb
  exact ⟨b', bind_of_ok hp f, hleads⟩

theorem bind {p : Parser α} {f : α → Parser β} {a : α} {x : β} (hp : Goes s i j p a)
    (hf : Goes s j k (f a) x) : Goes s i k (p >>= f) x := by
  intro b hb
  obtain ⟨b', hrun, hleads⟩ := hp.run f hb
  obtain ⟨b'', hf, hleads'⟩ := hf b' hleads.stands
  exact ⟨b'', hrun.trans hf, hleads.trans hleads'⟩

theorem consume : Goes s i (s.succ i) Parser.consume (s.token i) := fun b hb =>
  ⟨b.consume.2, congrArg (Reply.ok · _) hb.consume.1, .consume hb⟩

theorem peek : Goes s i i Parser.peek (s.token i) := fun b hb =>
  ⟨b.look.2, congrArg (Reply.ok · _) hb.look.1, .look hb⟩

theorem peekKind : Goes s i i Parser.peekKind (s.token i).kind := bind peek (pure _)

theorem lookahead {p : Parser α} {a : α} (hp : Goes s i j p a) :
    Goes s i i (Parser.lookahead p) a := by
  intro b hb
  obtain ⟨b', hp, hleads⟩ := hp b hb
  refine ⟨{ b' with cursor := i }, ?_, hleads.back hb⟩
  rw [Parser.lookahead, hp, hb.cursor]

theorem peek2 : Goes s i i Parser.peek2 (s.token i, s.token (s.succ i)) :=
  lookahead (bind consume (bind consume (pure _)))

theorem peek3 :
    Goes s i i Parser.peek3 (s.token i, s.token (s.succ i), s.token (s.succ (s.succ i))) :=
  lookahead (bind consume (bind consume (bind consume (pure _))))

theorem peek4 : Goes s i i Parser.peek4
    (s.token i, s.token (s.succ i), s.token (s.succ (s.succ i)),
      s.token (s.succ (s.succ (s.succ i)))) :=
  lookahead (bind consume (bind consume (bind consume (bind consume (pure _)))))

theorem checkpoint : Goes s i i Parser.checkpoint i := fun b hb =>
  ⟨b, congrArg (Reply.ok · _) hb.cursor, .refl hb⟩

end Parser.Goes

/-! ## Requests to a buffer and to a tape -/

/-- What a caller can ask of a token buffer. `restore n` goes back to the `n`-th of the checkpoints
taken so far, counted from zero, and does nothing if there are fewer. -/
inductive Request where
  | peek
  | peek2
  | peek3
  | peek4
  | consume
  | consumeIf (kind : Kind)
  | require (kind : Kind)
  | checkpoint
  | restore (n : Nat)
deriving DecidableEq, Repr

/-- What comes back: tokens, what `consumeIf` misses if it does not find its token, the error of
`require`, a checkpoint, or nothing. -/
inductive Answer where
  | tokens (ts : List Token)
  | missed (e : Option SyntaxError)
  | refused (e : SyntaxError)
  | place (cursor : Nat)
  | none
deriving DecidableEq, Repr

/-- The checkpoints taken, once this answer has been given. -/
def Answer.takes : Answer → List Nat → List Nat
  | .place cursor, taken => taken ++ [cursor]
  | _, taken => taken

/-- Requests one after the other, from a state in which the checkpoints `taken` have been taken: the
answers, the checkpoints and the state at the end. -/
def session {σ : Type} (perform : List Nat → Request → σ → Answer × σ) :
    List Request → List Nat → σ → List Answer × List Nat × σ
  | [], taken, st => ([], taken, st)
  | r :: rs, taken, st =>
    let (a, st) := perform taken r st
    let (answers, rest) := session perform rs (a.takes taken) st
    (a :: answers, rest)

/-- The parser that makes the request. -/
def Request.parser (taken : List Nat) : Request → Parser Answer
  | .peek => do return .tokens [← Parser.peek]
  | .peek2 => do
    let (a, b) ← Parser.peek2
    return .tokens [a, b]
  | .peek3 => do
    let (a, b, c) ← Parser.peek3
    return .tokens [a, b, c]
  | .peek4 => do
    let (a, b, c, d) ← Parser.peek4
    return .tokens [a, b, c, d]
  | .consume => do return .tokens [← Parser.consume]
  | .consumeIf kind => do return .missed (← Parser.tryKind kind)
  | .require kind => do return .tokens [← Parser.require kind]
  | .checkpoint => do return .place (← Parser.checkpoint)
  | .restore n => do
    if let some cursor := taken[n]? then Parser.restore cursor
    return .none

/-- A request to a buffer. -/
def Request.toBuffer (taken : List Nat) (r : Request) (b : Buffer) : Answer × Buffer :=
  match r.parser taken b with
  | .ok a b => (a, b)
  | .fail e b => (.refused e, b)

/-- A token stream under a cursor, and nothing else. -/
structure Tape where
  stream : Nat → Token
  cursor : Nat

namespace Tape

/-- The token under the cursor. -/
def current (m : Tape) : Token := m.stream m.cursor

/-- The cursor one token further, unless it is on the end of the text. -/
def next (m : Tape) : Tape :=
  if m.current.kind = .endOfFile then m else { m with cursor := m.cursor + 1 }

/-- The next `n` tokens. -/
def ahead : Nat → Tape → List Token
  | 0, _ => []
  | n + 1, m => m.current :: m.next.ahead n

end Tape

/-- A request to a tape. -/
def Request.toTape (taken : List Nat) : Request → Tape → Answer × Tape
  | .peek, m => (.tokens (m.ahead 1), m)
  | .peek2, m => (.tokens (m.ahead 2), m)
  | .peek3, m => (.tokens (m.ahead 3), m)
  | .peek4, m => (.tokens (m.ahead 4), m)
  | .consume, m => (.tokens [m.current], m.next)
  | .consumeIf kind, m =>
    if m.current.kind = kind then (.missed none, m.next)
    else (.missed (some ⟨.requiredTokenNotFound kind, m.current.span, some kind⟩), m)
  | .require kind, m =>
    if m.current.kind = kind then (.tokens [m.current], m.next)
    else (.refused (m.current.unexpected (.requiredTokenNotFound kind)), m.next)
  | .checkpoint, m => (.place m.cursor, m)
  | .restore n, m =>
    match taken[n]? with
    | some cursor => (.none, { m with cursor := cursor })
    | none => (.none, m)

/-! ## The same answers -/

/-- The cursor can be set to token `i`: it has been read and is not behind the end of the text. -/
def Buffer.CanReturn (s : Scanner) (b : Buffer) (i : Nat) : Prop :=
  i ≤ b.seen.size ∧ ∀ k < i, (s.token k).kind ≠ .endOfFile

theorem Tape.next_token (s : Scanner) (i : Nat) :
    (Tape.mk s.token i).next = ⟨s.token, s.succ i⟩ := by
  unfold Tape.next Scanner.succ Tape.current
  split <;> rfl

/-- The buffer and the tape have given the same answer, and the buffer still tracks the stream,
with its cursor where the tape has it. -/
def Refined (s : Scanner) (b : Buffer) (x : Answer × Buffer) (y : Answer × Tape) : Prop :=
  ∃ j, y = (x.1, ⟨s.token, j⟩) ∧ x.2.Tracks s j ∧ b.seen.size ≤ x.2.seen.size ∧
    ∀ cursor, x.1 = .place cursor → x.2.CanReturn s cursor

theorem Parser.Goes.refined {s : Scanner} {i j : Nat} {b : Buffer} {a : Answer} {taken : List Nat}
    {r : Request} (h : Goes s i j (r.parser taken) a) (hb : b.Tracks s i)
    (ha : ∀ cursor, a = .place cursor → cursor = j) :
    Refined s b (r.toBuffer taken b) (a, ⟨s.token, j⟩) := by
  obtain ⟨b', hrun, hleads⟩ := h b hb.toStands
  have hb' := hleads.tracks hb
  rw [Request.toBuffer, hrun]
  refine ⟨j, rfl, hb', hleads.grows, fun cursor hcursor => ?_⟩
  rw [ha cursor hcursor]
  exact ⟨hb'.reached, hb'.endAhead⟩

theorem Request.refined_consumeIf {s : Scanner} {i : Nat} {b : Buffer} {taken : List Nat}
    (hb : b.Tracks s i) (kind : Kind) :
    Refined s b ((Request.consumeIf kind).toBuffer taken b)
      ((Request.consumeIf kind).toTape taken ⟨s.token, i⟩) := by
  simp only [Request.toTape, Tape.next_token, Tape.current]
  by_cases hkind : (s.token i).kind = kind
  · rw [if_pos hkind]
    have htry : Parser.Goes s i (s.succ i) (Parser.tryKind kind) none := by
      refine .bind .peek ?_
      rw [if_pos (beq_iff_eq.2 hkind)]
      exact .bind .consume (.pure _)
    exact Parser.Goes.refined (.bind htry (.pure _)) hb nofun
  · rw [if_neg hkind]
    have htry : Parser.Goes s i i (Parser.tryKind kind)
        (some ⟨.requiredTokenNotFound kind, (s.token i).span, some kind⟩) := by
      refine .bind .peek ?_
      rw [if_neg (by simpa using hkind)]
      exact .pure _
    exact Parser.Goes.refined (.bind htry (.pure _)) hb nofun

theorem Request.refined_require {s : Scanner} {i : Nat} {b : Buffer} {taken : List Nat}
    (hb : b.Tracks s i) (kind : Kind) :
    Refined s b ((Request.require kind).toBuffer taken b)
      ((Request.require kind).toTape taken ⟨s.token, i⟩) := by
  simp only [Request.toTape, Tape.next_token, Tape.current]
  by_cases hkind : (s.token i).kind = kind
  · rw [if_pos hkind]
    have hrequire : Parser.Goes s i (s.succ i) (Parser.require kind) (s.token i) := by
      refine .bind .consume ?_
      rw [if_pos (beq_iff_eq.2 hkind)]
      exact .pure _
    exact Parser.Goes.refined (.bind hrequire (.pure _)) hb (by simp)
  -- the token is consumed though it is the wrong one
  · rw [if_neg hkind]
    obtain ⟨htoken, hb'⟩ := hb.consume
    have hrequire : Parser.require kind b
        = .fail ((s.token i).unexpected (.requiredTokenNotFound kind)) b.consume.2 :=
      Parser.checked_eq_fail (P := (· == kind)) _ htoken (by simpa using hkind)
    have hparser : (Request.require kind).parser taken b
        = .fail ((s.token i).unexpected (.requiredTokenNotFound kind)) b.consume.2 :=
      Parser.bind_of_fail hrequire _
    rw [Request.toBuffer, hparser]
    exact ⟨_, rfl, hb', b.size_seen_consume, by simp⟩

theorem Request.refined_restore {s : Scanner} {i : Nat} {b : Buffer} {taken : List Nat}
    (hb : b.Tracks s i) (htaken : ∀ cursor ∈ taken, b.CanReturn s cursor) (n : Nat) :
    Refined s b ((Request.restore n).toBuffer taken b)
      ((Request.restore n).toTape taken ⟨s.token, i⟩) := by
  simp only [Request.toBuffer, Request.parser, Request.toTape]
  cases hn : taken[n]? with
  | none => exact ⟨i, rfl, hb, le_rfl, nofun⟩
  | some cursor =>
    obtain ⟨hreached, hahead⟩ := htaken cursor (List.mem_of_getElem? hn)
    exact ⟨cursor, rfl, hb.moved hreached hahead, le_rfl, nofun⟩

/-- One request. -/
theorem Request.refined {s : Scanner} {i : Nat} {b : Buffer} {taken : List Nat}
    (hb : b.Tracks s i) (htaken : ∀ cursor ∈ taken, b.CanReturn s cursor) (r : Request) :
    Refined s b (r.toBuffer taken b) (r.toTape taken ⟨s.token, i⟩) := by
  cases r with
  | peek => exact Parser.Goes.refined (.bind .peek (.pure _)) hb nofun
  | peek2 =>
    simp only [Request.toTape, Tape.ahead, Tape.next_token, Tape.current]
    exact Parser.Goes.refined (.bind .peek2 (.pure _)) hb nofun
  | peek3 =>
    simp only [Request.toTape, Tape.ahead, Tape.next_token, Tape.current]
    exact Parser.Goes.refined (.bind .peek3 (.pure _)) hb nofun
  | peek4 =>
    simp only [Request.toTape, Tape.ahead, Tape.next_token, Tape.current]
    exact Parser.Goes.refined (.bind .peek4 (.pure _)) hb nofun
  | consume =>
    simp only [Request.toTape, Tape.next_token]
    exact Parser.Goes.refined (.bind .consume (.pure _)) hb nofun
  | consumeIf kind => exact refined_consumeIf hb kind
  | require kind => exact refined_require hb kind
  | checkpoint =>
    refine Parser.Goes.refined (.bind .checkpoint (.pure _)) hb fun cursor h => ?_
    exact (Answer.place.inj h).symm
  | restore n => exact refined_restore hb htaken n

/-- Any number of requests. -/
theorem session_refined {s : Scanner} {b : Buffer} {i : Nat} {taken : List Nat}
    (hb : b.Tracks s i) (htaken : ∀ cursor ∈ taken, b.CanReturn s cursor) (rs : List Request) :
    ∃ answers taken' b' j, session Request.toBuffer rs taken b = (answers, taken', b') ∧
      session Request.toTape rs taken ⟨s.token, i⟩ = (answers, taken', ⟨s.token, j⟩) ∧
      b'.Tracks s j := by
  induction rs generalizing b i taken with
  | nil => exact ⟨[], taken, b, i, rfl, rfl, hb⟩
  | cons r rs ih =>
    obtain ⟨j, htape, hb', hle, hplace⟩ := r.refined hb htaken
    generalize hrun : r.toBuffer taken b = x at htape hb' hle hplace
    obtain ⟨a, b'⟩ := x
    have htaken' : ∀ cursor ∈ a.takes taken, b'.CanReturn s cursor := by
      have hold : ∀ cursor ∈ taken, b'.CanReturn s cursor := fun cursor hcursor =>
        ⟨(htaken cursor hcursor).1.trans hle, (htaken cursor hcursor).2⟩
      cases a with
      | place cursor =>
        intro c hc
        rcases List.mem_append.1 hc with hc | hc
        · exact hold c hc
        · rw [List.mem_singleton.1 hc]
          exact hplace cursor rfl
      | _ => exact hold
    obtain ⟨answers, taken', b'', k, hbuffer, hrest, hb''⟩ := ih hb' htaken'
    refine ⟨a :: answers, taken', b'', k, ?_, ?_, hb''⟩
    · simp only [session, hrun, hbuffer]
    · simp only [session, htape, hrest]

/-- Whatever requests are made of the buffer of a source text, in any order, it gives the answers of
the tape of that text. What it has read are then the first tokens of the stream, the cursor is where
the tape has it and not behind the end of the text, and the text since a checkpoint is that from the
token at the checkpoint to the last one consumed, if any has been consumed since. -/
theorem buffer_refines_tape (source : String) (rs : List Request) :
    ∃ answers taken b cursor,
      session Request.toBuffer rs [] (Buffer.ofSource source) = (answers, taken, b) ∧
      session Request.toTape rs [] ⟨(Scanner.ofSource source).token, 0⟩
        = (answers, taken, ⟨(Scanner.ofSource source).token, cursor⟩) ∧
      b.Tracks (Scanner.ofSource source) cursor ∧
      ∀ start ∈ taken, start < cursor →
        b.since start = ⟨((Scanner.ofSource source).token start).span.start,
          ((Scanner.ofSource source).token (cursor - 1)).span.stop⟩ ∧
        (b.since start).start ≤ (b.since start).stop := by
  obtain ⟨answers, taken, b, cursor, hbuffer, htape, hb⟩ :=
    session_refined (Buffer.tracks_ofSource source) (List.forall_mem_nil _) rs
  refine ⟨answers, taken, b, cursor, hbuffer, htape, hb, fun start _ hlt => ?_⟩
  rw [hb.since hlt]
  refine ⟨rfl, ?_⟩
  have hstart := (Scanner.ofSource source).start_mono (show start ≤ cursor - 1 by omega)
  have hstop := (Scanner.ofSource source).start_le_stop (cursor - 1)
  exact hstart.trans hstop

end Ambient
