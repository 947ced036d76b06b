import Ambient.Proofs.Spans
/-!
# Parsers in lockstep

A `Twin` is a pair of token streams that agree on kind, text and line breaks up to the end. A parser
that runs on both makes the same moves: it stops at the same token of each, with values that differ
in spans only, or it fails on both with the same error (`Twin.Runs`). This module proves it for the
combinators. The values read from the first stream fit between the tokens they were read from, and
no invalid token is consumed. With one stream on both sides this says what a single run does.

The streams may differ in one respect that parsers can see: whether a line break comes before the
end of the text. `SyntaxError.Alike` says what this can change.
-/

namespace Ambient

/-! ## One stream under a cursor -/

/-- The buffer stands before token `i` of the stream of `s`, which ends at token `stop`, and has
rounds to spare. -/
structure Buffer.At (s : Scanner) (stop i : Nat) (b : Buffer) : Prop where
  cursor : b.cursor = i
  scanner : b.scanner = s.after b.seen.size
  seen : ∀ k < b.seen.size, b.seen[k]? = some (s.token k)
  reached : i ≤ b.seen.size
  bound : i ≤ stop
  rounds : stop < b.rounds
  size : b.size = width s.rest

/-- The token to look at behind token `i`: the end of the text is never passed. -/
def Scanner.succ (s : Scanner) (i : Nat) : Nat := if (s.token i).kind = .endOfFile then i else i + 1

namespace Buffer.At

variable {s : Scanner} {stop i j : Nat} {b : Buffer}

theorem look (h : b.At s stop i) :
    b.look.1 = s.token i ∧ b.look.2.At s stop i ∧ i < b.look.2.seen.size := by
  have hcursor := h.cursor
  have hreached := h.reached
  by_cases hi : i < b.seen.size
  -- the token was looked at before
  · have hseen := h.seen i hi
    rw [Buffer.look, hcursor, hseen]
    exact ⟨rfl, h, hi⟩
  -- it is the next one that the scanner reads
  · obtain rfl : i = b.seen.size := by omega
    have hnone : b.seen[b.cursor]? = none := by simp [hcursor]
    rw [Buffer.look, hnone, h.scanner]
    refine ⟨rfl, ⟨h.cursor, by simp [Scanner.after], fun k hk => ?_, by simp, h.bound, h.rounds,
      h.size⟩, by simp⟩
    simp only [Array.size_push] at hk
    rw [Array.getElem?_push]
    by_cases hk' : k = b.seen.size
    · rw [if_pos hk', hk']
      rfl
    · rw [if_neg hk']
      exact h.seen k (by omega)

theorem moved (h : b.At s stop j) (hij : i ≤ j) : { b with cursor := i }.At s stop i where
  cursor := rfl
  scanner := h.scanner
  seen := h.seen
  reached := hij.trans h.reached
  bound := hij.trans h.bound
  rounds := h.rounds
  size := h.size

theorem consume (hs : s.EndsAt stop) (h : b.At s stop i) :
    b.consume.1 = s.token i ∧ b.consume.2.At s stop (s.succ i) := by
  obtain ⟨htoken, hat, hlt⟩ := h.look
  refine ⟨htoken, ?_⟩
  have hbound := h.bound
  change (b.look.2.pass b.look.1).At s stop (s.succ i)
  unfold Buffer.pass Scanner.succ
  rw [htoken]
  by_cases hend : (s.token i).kind = .endOfFile
  · rw [if_pos hend, if_pos (by simpa using hend)]
    exact hat
  · rw [if_neg hend, if_neg (by simpa using hend)]
    have hne : i ≠ stop := fun heq => hend (heq ▸ hs.ended)
    exact ⟨by rw [hat.cursor], hat.scanner, hat.seen, hlt, by omega, hat.rounds, hat.size⟩

theorem since {start : Nat} (h : b.At s stop j) (hlt : start < j) :
    b.since start = s.spanOf start j := by
  have hreached := h.reached
  have hfirst := h.seen start (by omega)
  have hlast := h.seen (j - 1) (by omega)
  rw [Buffer.since, h.cursor, if_pos hlt, hfirst, hlast]
  rfl

end Buffer.At

/-! ## Single runs -/

namespace Parser

variable {α β γ : Type}

theorem andThen_succeed (p : Parser α) : p.andThen succeed = p := by
  funext b
  unfold andThen succeed
  cases p b <;> rfl

theorem andThen_assoc (p : Parser α) (f : α → Parser β) (g : β → Parser γ) :
    (p.andThen f).andThen g = p.andThen fun a => (f a).andThen g := by
  funext b
  unfold andThen
  cases p b <;> rfl

instance : LawfulMonad Parser :=
  LawfulMonad.mk' Parser andThen_succeed (fun _ _ => rfl) andThen_assoc

end Parser

/-- From token `i` of the stream the parser gives `a` and stops at token `j`. -/
def Parser.Moves {α : Type} (s : Scanner) (stop i j : Nat) (p : Parser α) (a : α) : Prop :=
  ∀ b : Buffer, b.At s stop i → ∃ b', p b = .ok a b' ∧ b'.At s stop j

namespace Parser.Moves

variable {α β : Type} {s : Scanner} {stop i j k : Nat}

theorem pure (a : α) : Moves s stop i i (Pure.pure a) a := fun b hb => ⟨b, rfl, hb⟩

theorem bind {p : Parser α} {f : α → Parser β} {a : α} {x : β} (hp : Moves s stop i j p a)
    (hf : Moves s stop j k (f a) x) : Moves s stop i k (p >>= f) x := by
  intro b hb
  obtain ⟨b', hp, hb'⟩ := hp b hb
  obtain ⟨b'', hf, hb''⟩ := hf b' hb'
  exact ⟨b'', (bind_of_ok hp f).trans hf, hb''⟩

theorem consume (hs : s.EndsAt stop) : Moves s stop i (s.succ i) Parser.consume (s.token i) := by
  intro b hb
  obtain ⟨htoken, hb'⟩ := hb.consume hs
  exact ⟨b.consume.2, congrArg (Reply.ok · _) htoken, hb'⟩

theorem lookahead {p : Parser α} {a : α} (hij : i ≤ j) (hp : Moves s stop i j p a) :
    Moves s stop i i (Parser.lookahead p) a := by
  intro b hb
  obtain ⟨b', hp, hb'⟩ := hp b hb
  refine ⟨{ b' with cursor := i }, ?_, hb'.moved hij⟩
  rw [Parser.lookahead, hp, hb.cursor]

theorem le_succ (s : Scanner) (i : Nat) : i ≤ s.succ i := by
  unfold Scanner.succ
  split <;> omega

theorem peek : Moves s stop i i Parser.peek (s.token i) := by
  intro b hb
  obtain ⟨htoken, hb', -⟩ := hb.look
  exact ⟨b.look.2, congrArg (Reply.ok · _) htoken, hb'⟩

theorem checkpoint : Moves s stop i i Parser.checkpoint i := fun b hb =>
  ⟨b, congrArg (Reply.ok · _) hb.cursor, hb⟩

theorem accept {kind : Kind} (h : (s.token i).kind ≠ kind) :
    Moves s stop i i (Parser.accept kind) false := by
  have htry : Moves s stop i i (tryKind kind)
      (.some ⟨.requiredTokenNotFound kind, (s.token i).span, .some kind⟩) := by
    refine bind peek ?_
    rw [if_neg (by simpa using h)]
    exact pure _
  exact bind htry (pure _)

/-- A repetition whose first step is its last. -/
theorem repeatFrom {step : α → Parser (ForInStep α)} {a x : α}
    (h : Moves s stop i j (step a) (.done x)) : Moves s stop i j (Parser.repeatFrom a step) x := by
  intro b hb
  have hrounds := hb.rounds
  obtain ⟨b', hstep, hb'⟩ := h b hb
  refine ⟨b', ?_, hb'⟩
  obtain ⟨n, hn⟩ : ∃ n, b.rounds = n + 1 := ⟨b.rounds - 1, by omega⟩
  rw [Parser.repeatFrom, hn, repeatAtMost]
  exact bind_of_ok hstep _

theorem peek2 (hs : s.EndsAt stop) :
    Moves s stop i i Parser.peek2 (s.token i, s.token (s.succ i)) :=
  lookahead ((le_succ s i).trans (le_succ s _)) (bind (consume hs) (bind (consume hs) (pure _)))

theorem peek3 (hs : s.EndsAt stop) : Moves s stop i i Parser.peek3
    (s.token i, s.token (s.succ i), s.token (s.succ (s.succ i))) :=
  lookahead (((le_succ s i).trans (le_succ s _)).trans (le_succ s _))
    (bind (consume hs) (bind (consume hs) (bind (consume hs) (pure _))))

theorem peek4 (hs : s.EndsAt stop) : Moves s stop i i Parser.peek4
    (s.token i, s.token (s.succ i), s.token (s.succ (s.succ i)),
      s.token (s.succ (s.succ (s.succ i)))) :=
  lookahead ((((le_succ s i).trans (le_succ s _)).trans (le_succ s _)).trans (le_succ s _))
    (bind (consume hs) (bind (consume hs) (bind (consume hs) (bind (consume hs) (pure _)))))

end Parser.Moves

/-- From token `i` of the stream the parser fails with an error that satisfies `E`. -/
def Parser.Fails {α : Type} (s : Scanner) (stop i : Nat) (p : Parser α) (E : SyntaxError → Prop) :
    Prop :=
  ∀ b : Buffer, b.At s stop i → ∃ e b', p b = .fail e b' ∧ E e

namespace Parser

variable {α β : Type} {s : Scanner} {stop i j : Nat} {E : SyntaxError → Prop}

theorem fails_failWith {e : SyntaxError} (h : E e) :
    Fails s stop i (failWith e : Parser α) E := fun b _ => ⟨e, b, rfl, h⟩

theorem Fails.bind {p : Parser α} {f : α → Parser β} (hp : Fails s stop i p E) :
    Fails s stop i (p >>= f) E := by
  intro b hb
  obtain ⟨e, b', hp, he⟩ := hp b hb
  exact ⟨e, b', bind_of_fail hp f, he⟩

theorem Moves.bind_fails {p : Parser α} {f : α → Parser β} {a : α} (hp : Moves s stop i j p a)
    (hf : Fails s stop j (f a) E) : Fails s stop i (p >>= f) E := by
  intro b hb
  obtain ⟨b', hp, hb'⟩ := hp b hb
  obtain ⟨e, b'', hf, he⟩ := hf b' hb'
  exact ⟨e, b'', (bind_of_ok hp f).trans hf, he⟩

end Parser

/-- Consumes a token whose kind must satisfy `P`; otherwise `cause` is what is wrong. -/
def Parser.checked (P : Kind → Bool) (cause : Cause) : Parser Token := do
  let t ← consume
  if P t.kind then return t else failWith (t.unexpected cause)

theorem Parser.checked_eq_fail {P : Kind → Bool} {b : Buffer} {t : Token} (cause : Cause)
    (ht : b.consume.1 = t) (hP : ¬ P t.kind) :
    Parser.checked P cause b = .fail (t.unexpected cause) b.consume.2 := by
  change (if P b.consume.1.kind then pure b.consume.1
    else failWith (b.consume.1.unexpected cause) : Parser Token) b.consume.2 = _
  rw [ht, if_neg hP]
  rfl

/-! ## Two streams -/

/-- Two tokens that parsers cannot tell apart, except by a line break before the end of the text. -/
structure Token.Alike (t t' : Token) : Prop where
  kind : t.kind = t'.kind
  text : t.text = t'.text
  fault : t.fault = t'.fault
  newline : t.kind ≠ .endOfFile → t.newlineBefore = t'.newlineBefore

/-- Two streams that end at the same token and agree up to there. -/
structure Twin where
  left : Scanner
  right : Scanner
  stop : Nat
  endsAt : left.EndsAt stop
  agree : ∀ k ≤ stop, (left.token k).Alike (right.token k)

/-- Two errors that differ in their spans only. If the two texts do not agree on whether they end
with a line break (`sameEnd`), then one of them may miss the semicolon after a last member where the
other one misses the next member. -/
def SyntaxError.Alike (sameEnd : Prop) (e e' : SyntaxError) : Prop :=
  e.actual = e'.actual ∧ (e.cause = e'.cause ∨ ¬ sameEnd ∧ e.actual = some .endOfFile ∧
    (e.cause = .requiredTokenNotFound .semicolon ∧ e'.cause = .expectedSyntax "member name" ∨
      e.cause = .expectedSyntax "member name" ∧ e'.cause = .requiredTokenNotFound .semicolon))

theorem Token.Alike.unexpected {t t' : Token} (h : t.Alike t') (sameEnd : Prop) (cause : Cause) :
    (t.unexpected cause).Alike sameEnd (t'.unexpected cause) :=
  ⟨congrArg some h.kind, .inl (congrArg cause.atFault h.fault)⟩

theorem Token.Alike.error {t t' : Token} (h : t.Alike t') (sameEnd : Prop) (cause : Cause) :
    (t.error cause).Alike sameEnd (t'.error cause) := ⟨congrArg some h.kind, .inl rfl⟩

theorem Token.Alike.word {t t' : Token} (h : t.Alike t') : t.word = t'.word :=
  congrArg String.ofList h.text

namespace Twin

variable {α β : Type} (T : Twin)

/-- The kind of token `k` on both sides. -/
abbrev kind (k : Nat) : Kind := (T.left.token k).kind

/-- Whether both texts end with a line break or neither does. -/
def SameEnd : Prop :=
  (T.left.token T.stop).newlineBefore = (T.right.token T.stop).newlineBefore

/-- None of the tokens from `i` up to `j` is invalid. -/
def Clean (i j : Nat) : Prop := ∀ k, i ≤ k → k < j → T.kind k ≠ .invalid

theorem endsAt_right : T.right.EndsAt T.stop where
  ended := (T.agree T.stop le_rfl).kind ▸ T.endsAt.ended
  before k hk := (T.agree k hk.le).kind ▸ T.endsAt.before k hk

/-- What the two runs of a parser from token `i` on come to: both give values, which `R` relates,
and stop at the same token, or both fail. -/
inductive Outcome (i : Nat) (R : Nat → α → α → Prop) : Reply α → Reply α → Prop
  | ok {j a a' b c} : i ≤ j → T.Clean i j → b.At T.left T.stop j → c.At T.right T.stop j →
    R j a a' → Outcome i R (.ok a b) (.ok a' c)
  | fail {e e' b c} : e.Alike T.SameEnd e' → Outcome i R (.fail e b) (.fail e' c)

/-- From token `i` on, `p` on the left and `q` on the right run in lockstep. `R j` relates the
values that they give if they stop at token `j`. -/
def Runs (i : Nat) (p q : Parser α) (R : Nat → α → α → Prop) : Prop :=
  ∀ b c, b.At T.left T.stop i → c.At T.right T.stop i → T.Outcome i R (p b) (q c)

variable {T} {i j : Nat}

theorem Clean.refl : T.Clean i i := fun k hk hk' => by omega

theorem Clean.succ (h : T.kind i ≠ .invalid) : T.Clean i (i + 1) := fun k hk hk' => by
  obtain rfl : k = i := by omega
  exact h

theorem Clean.trans {k : Nat} (h : T.Clean i j) (h' : T.Clean j k) : T.Clean i k := by
  intro l hl hl'
  by_cases hlj : l < j
  · exact h l hl hlj
  · exact h' l (by omega) hl'

namespace Runs

variable {R S : Nat → α → α → Prop} {Q : Nat → β → β → Prop} {p q : Parser α}

theorem pure {a a' : α} (h : R i a a') : T.Runs i (Pure.pure a) (Pure.pure a') R :=
  fun _ _ hb hc => .ok le_rfl .refl hb hc h

theorem fail {e e' : SyntaxError} (h : e.Alike T.SameEnd e') :
    T.Runs i (Parser.failWith e) (Parser.failWith e') R := fun _ _ _ _ => .fail h

theorem bind {f g : α → Parser β} (h : T.Runs i p q R)
    (hfg : ∀ j a a', i ≤ j → R j a a' → T.Runs j (f a) (g a') Q) :
    T.Runs i (p >>= f) (q >>= g) Q := by
  intro b c hb hc
  have hpq := h b c hb hc
  change T.Outcome i Q (Parser.andThen p f b) (Parser.andThen q g c)
  unfold Parser.andThen
  generalize p b = x at hpq
  generalize q c = y at hpq
  cases hpq with
  | fail he => exact .fail he
  | @ok j a a' b' c' hij hclean hb' hc' hR =>
    have hrest := hfg j a a' hij hR b' c' hb' hc'
    change T.Outcome i Q (f a b') (g a' c')
    generalize f a b' = x at hrest
    generalize g a' c' = y at hrest
    cases hrest with
    | fail he => exact .fail he
    | ok hjk hclean' hb'' hc'' hQ =>
      exact .ok (hij.trans hjk) (hclean.trans hclean') hb'' hc'' hQ

theorem mono (h : T.Runs i p q R) (hRS : ∀ j a a', i ≤ j → R j a a' → S j a a') :
    T.Runs i p q S := by
  intro b c hb hc
  have hpq := h b c hb hc
  generalize p b = x at hpq
  generalize q c = y at hpq
  cases hpq with
  | fail he => exact .fail he
  | ok hij hclean hb' hc' hR => exact .ok hij hclean hb' hc' (hRS _ _ _ hij hR)

/-- The values come from runs of the parsers. -/
theorem recorded (h : T.Runs i p q R) : T.Runs i p q fun j a a' => R j a a' ∧
    ∃ b b', b.At T.left T.stop i ∧ p b = .ok a b' ∧ b'.At T.left T.stop j := by
  intro b c hb hc
  have hpq := h b c hb hc
  generalize hx : p b = x at hpq
  generalize q c = y at hpq
  cases hpq with
  | fail he => exact .fail he
  | ok hij hclean hb' hc' hR => exact .ok hij hclean hb' hc' ⟨hR, b, _, hb, hx, hb'⟩

theorem ite {cond : Prop} [Decidable cond] {p' q' : Parser α} (h : cond → T.Runs i p q R)
    (h' : ¬ cond → T.Runs i p' q' R) :
    T.Runs i (if cond then p else p') (if cond then q else q') R := by
  by_cases hcond : cond
  · simpa only [if_pos hcond] using h hcond
  · simpa only [if_neg hcond] using h' hcond

theorem of_le_stop (h : i ≤ T.stop → T.Runs i p q R) : T.Runs i p q R := fun b c hb hc =>
  h hb.bound b c hb hc

theorem of_fails {E E' : SyntaxError → Prop} (hp : Parser.Fails T.left T.stop i p E)
    (hq : Parser.Fails T.right T.stop i q E') (h : ∀ e e', E e → E' e' → e.Alike T.SameEnd e') :
    T.Runs i p q R := by
  intro b c hb hc
  obtain ⟨e, b', hpb, he⟩ := hp b hb
  obtain ⟨e', c', hqc, he'⟩ := hq c hc
  rw [hpb, hqc]
  exact .fail (h e e' he he')

end Runs

/-! ## Looking and consuming -/

/-- The token to look at behind token `i`. -/
def next (T : Twin) (i : Nat) : Nat := T.left.succ i

theorem succ_right (hi : i ≤ T.stop) : T.right.succ i = T.next i := by
  rw [next, Scanner.succ, Scanner.succ, (T.agree i hi).kind]

theorem next_eq (h : T.kind i ≠ .endOfFile) : T.next i = i + 1 := if_neg h

theorem next_le_stop (hi : i ≤ T.stop) : T.next i ≤ T.stop := by
  unfold next Scanner.succ
  split
  · exact hi
  · rename_i hend
    have hne : i ≠ T.stop := fun heq => hend (heq ▸ T.endsAt.ended)
    omega

/-- A kind of token that is neither the end of the text nor invalid. -/
def IsProper (kind : Kind) : Prop := kind ≠ .endOfFile ∧ kind ≠ .invalid

instance (kind : Kind) : Decidable (IsProper kind) := inferInstanceAs (Decidable (_ ∧ _))

theorem isProper_of_test {P : Kind → Bool} {kind : Kind} (h : P kind)
    (hP : P .endOfFile = false ∧ P .invalid = false) : IsProper kind := by
  constructor
  · rintro rfl
    exact absurd h (by simp [hP.1])
  · rintro rfl
    exact absurd h (by simp [hP.2])

namespace Runs

variable {R : Nat → α → α → Prop}

theorem peek_bind {f g : Token → Parser α}
    (h : (T.left.token i).Alike (T.right.token i) →
      T.Runs i (f (T.left.token i)) (g (T.right.token i)) R) :
    T.Runs i (Parser.peek >>= f) (Parser.peek >>= g) R := by
  intro b c hb hc
  obtain ⟨hl, hb', -⟩ := hb.look
  obtain ⟨hr, hc', -⟩ := hc.look
  change T.Outcome i R (f b.look.1 b.look.2) (g c.look.1 c.look.2)
  rw [hl, hr]
  exact h (T.agree i hb.bound) _ _ hb' hc'

theorem peekKind_bind {f g : Kind → Parser α} (h : T.Runs i (f (T.kind i)) (g (T.kind i)) R) :
    T.Runs i (Parser.peekKind >>= f) (Parser.peekKind >>= g) R := by
  refine peek_bind (f := fun t => f t.kind) (g := fun t => g t.kind) fun halike => ?_
  rw [← halike.kind]
  exact h

theorem consume_bind {f g : Token → Parser α} (hkind : IsProper (T.kind i))
    (h : (T.left.token i).Alike (T.right.token i) →
      T.Runs (i + 1) (f (T.left.token i)) (g (T.right.token i)) R) :
    T.Runs i (Parser.consume >>= f) (Parser.consume >>= g) R := by
  have hconsume : T.Runs i Parser.consume Parser.consume fun j t t' =>
      j = i + 1 ∧ t = T.left.token i ∧ t' = T.right.token i ∧ t.Alike t' := by
    intro b c hb hc
    obtain ⟨hl, hb'⟩ := hb.consume T.endsAt
    obtain ⟨hr, hc'⟩ := hc.consume T.endsAt_right
    have halike := T.agree i hb.bound
    rw [succ_right hc.bound, next_eq hkind.1] at hc'
    change b.consume.2.At T.left T.stop (T.next i) at hb'
    rw [next_eq hkind.1] at hb'
    change T.Outcome i _ (.ok b.consume.1 b.consume.2) (.ok c.consume.1 c.consume.2)
    rw [hl, hr]
    exact .ok (Nat.le_succ i) (.succ hkind.2) hb' hc' ⟨rfl, rfl, rfl, halike⟩
  refine hconsume.bind fun j t t' _ hj => ?_
  obtain ⟨rfl, rfl, rfl, halike⟩ := hj
  exact h halike

/-- Two parsers that look ahead without moving. -/
theorem bind_of_moves {p q : Parser β} {x x' : β} {f g : β → Parser α}
    (hp : Parser.Moves T.left T.stop i i p x) (hq : Parser.Moves T.right T.stop i i q x')
    (h : i ≤ T.stop → T.Runs i (f x) (g x') R) : T.Runs i (p >>= f) (q >>= g) R := by
  intro b c hb hc
  obtain ⟨b', hpb, hb'⟩ := hp b hb
  obtain ⟨c', hqc, hc'⟩ := hq c hc
  change T.Outcome i R (Parser.andThen p f b) (Parser.andThen q g c)
  rw [Parser.andThen, Parser.andThen, hpb, hqc]
  exact h hb.bound b' c' hb' hc'

theorem peek2_bind {f g : Token × Token → Parser α}
    (h : (T.left.token i).Alike (T.right.token i) →
      (T.left.token (T.next i)).Alike (T.right.token (T.next i)) →
      T.Runs i (f (T.left.token i, T.left.token (T.next i)))
        (g (T.right.token i, T.right.token (T.next i))) R) :
    T.Runs i (Parser.peek2 >>= f) (Parser.peek2 >>= g) R := by
  apply bind_of_moves (.peek2 T.endsAt) (.peek2 T.endsAt_right)
  intro hi
  have hi₁ := next_le_stop hi
  rw [succ_right hi]
  exact h (T.agree _ hi) (T.agree _ hi₁)

theorem peek3_bind {f g : Token × Token × Token → Parser α}
    (h : (T.left.token i).Alike (T.right.token i) →
      (T.left.token (T.next i)).Alike (T.right.token (T.next i)) →
      (T.left.token (T.next (T.next i))).Alike (T.right.token (T.next (T.next i))) →
      T.Runs i (f (T.left.token i, T.left.token (T.next i), T.left.token (T.next (T.next i))))
        (g (T.right.token i, T.right.token (T.next i), T.right.token (T.next (T.next i)))) R) :
    T.Runs i (Parser.peek3 >>= f) (Parser.peek3 >>= g) R := by
  apply bind_of_moves (.peek3 T.endsAt) (.peek3 T.endsAt_right)
  intro hi
  have hi₁ := next_le_stop hi
  have hi₂ := next_le_stop hi₁
  rw [succ_right hi, succ_right hi₁]
  exact h (T.agree _ hi) (T.agree _ hi₁) (T.agree _ hi₂)

/-- The kinds of the tokens behind the next one are all that is looked at. -/
theorem peek4_bind {f g : Token × Token × Token × Token → Parser α}
    (h : ∀ t t' u u' v v' w w', t.Alike t' → u.Alike u' → v.Alike v' → w.Alike w' →
      T.Runs i (f (t, u, v, w)) (g (t', u', v', w')) R) :
    T.Runs i (Parser.peek4 >>= f) (Parser.peek4 >>= g) R := by
  apply bind_of_moves (.peek4 T.endsAt) (.peek4 T.endsAt_right)
  intro hi
  have hi₁ := next_le_stop hi
  have hi₂ := next_le_stop hi₁
  have hi₃ := next_le_stop hi₂
  rw [succ_right hi, succ_right hi₁, succ_right hi₂]
  exact h _ _ _ _ _ _ _ _ (T.agree _ hi) (T.agree _ hi₁) (T.agree _ hi₂) (T.agree _ hi₃)

theorem accept {kind : Kind} (hkind : IsProper kind) :
    T.Runs i (Parser.accept kind) (Parser.accept kind) fun j x x' => x = x' ∧
      (x = true ∧ T.kind i = kind ∧ j = i + 1 ∨ x = false ∧ T.kind i ≠ kind ∧ j = i) := by
  have htry : T.Runs i (Parser.tryKind kind) (Parser.tryKind kind) fun j x x' =>
      x.isNone = x'.isNone ∧ (x.isNone = true ∧ T.kind i = kind ∧ j = i + 1
        ∨ x.isNone = false ∧ T.kind i ≠ kind ∧ j = i) := by
    refine peek_bind fun halike => ?_
    rw [← halike.kind]
    refine ite (fun heq => ?_) fun hne => ?_
    · have heq : T.kind i = kind := eq_of_beq heq
      exact consume_bind (heq ▸ hkind) fun _ => .pure ⟨rfl, .inl ⟨rfl, heq, rfl⟩⟩
    · exact .pure ⟨rfl, .inr ⟨rfl, fun heq => hne (beq_iff_eq.2 heq), rfl⟩⟩
  exact htry.bind fun j x x' _ hx => .pure hx

theorem accept_bind {kind : Kind} {f g : Bool → Parser α} (hkind : IsProper kind)
    (h : T.kind i = kind → T.Runs (i + 1) (f true) (g true) R)
    (h' : T.kind i ≠ kind → T.Runs i (f false) (g false) R) :
    T.Runs i (Parser.accept kind >>= f) (Parser.accept kind >>= g) R := by
  refine (accept hkind).bind fun j x x' _ hx => ?_
  obtain ⟨rfl, ⟨rfl, heq, rfl⟩ | ⟨rfl, hne, rfl⟩⟩ := hx
  · exact h heq
  · exact h' hne

theorem checkpoint_bind {f g : Nat → Parser α} (h : T.Runs i (f i) (g i) R) :
    T.Runs i (Parser.checkpoint >>= f) (Parser.checkpoint >>= g) R := by
  intro b c hb hc
  change T.Outcome i R (f b.cursor b) (g c.cursor c)
  rw [hb.cursor, hc.cursor]
  exact h b c hb hc

theorem since_bind {start : Nat} {f g : Span → Parser α} (hlt : start < i)
    (h : T.Runs i (f (T.left.spanOf start i)) (g (T.right.spanOf start i)) R) :
    T.Runs i (Parser.since start >>= f) (Parser.since start >>= g) R := by
  intro b c hb hc
  change T.Outcome i R (f (b.since start) b) (g (c.since start) c)
  rw [hb.since hlt, hc.since hlt]
  exact h b c hb hc

theorem checked_fails {P : Kind → Bool} (cause : Cause) {f g : Token → Parser α}
    (hkind : ¬ P (T.kind i)) :
    T.Runs i (Parser.checked P cause >>= f) (Parser.checked P cause >>= g) R := by
  intro b c hb hc
  have halike := T.agree i hb.bound
  have hl := Parser.checked_eq_fail cause (hb.consume T.endsAt).1 hkind
  have hr := Parser.checked_eq_fail cause (hc.consume T.endsAt_right).1
    (by rwa [← halike.kind])
  change T.Outcome i R (Parser.andThen _ f b) (Parser.andThen _ g c)
  rw [Parser.andThen, Parser.andThen, hl, hr]
  exact .fail (halike.unexpected _ _)

/-- A token whose kind must satisfy `P` is consumed, or both sides fail at it. -/
theorem checked_bind {P : Kind → Bool} {cause : Cause} {f g : Token → Parser α}
    (h : P (T.kind i) → (T.left.token i).Alike (T.right.token i) →
      T.Runs (i + 1) (f (T.left.token i)) (g (T.right.token i)) R)
    (hP : P (T.kind i) → IsProper (T.kind i)) :
    T.Runs i (Parser.checked P cause >>= f) (Parser.checked P cause >>= g) R := by
  -- only a token that passes the test is consumed, so nothing is said here of the end of the text
  by_cases hkind : P (T.kind i)
  · have hconsume : T.Runs i (Parser.checked P cause) (Parser.checked P cause) fun j t t' =>
        j = i + 1 ∧ t = T.left.token i ∧ t' = T.right.token i ∧ t.Alike t' := by
      refine consume_bind (hP hkind) fun halike => ?_
      rw [← halike.kind, if_pos hkind, if_pos hkind]
      exact .pure ⟨rfl, rfl, rfl, halike⟩
    refine hconsume.bind fun j t t' _ hj => ?_
    obtain ⟨rfl, rfl, rfl, halike⟩ := hj
    exact h hkind halike
  · exact checked_fails cause hkind

theorem require_bind {kind : Kind} {f g : Token → Parser α} (hkind : IsProper kind)
    (h : T.kind i = kind → (T.left.token i).Alike (T.right.token i) →
      T.Runs (i + 1) (f (T.left.token i)) (g (T.right.token i)) R) :
    T.Runs i (Parser.require kind >>= f) (Parser.require kind >>= g) R := by
  refine checked_bind (P := (· == kind)) (fun heq => h (eq_of_beq heq)) fun heq => ?_
  rwa [eq_of_beq heq]

/-- The end of the text is required but not passed. -/
theorem requireEnd_bind {f g : Token → Parser α}
    (h : i = T.stop → T.Runs i (f (T.left.token i)) (g (T.right.token i)) R) :
    T.Runs i (Parser.require .endOfFile >>= f) (Parser.require .endOfFile >>= g) R := by
  refine of_le_stop fun hi => ?_
  have halike := T.agree i hi
  by_cases hend : T.kind i = .endOfFile
  · have hmoves : ∀ {s : Scanner}, s.EndsAt T.stop → (s.token i).kind = .endOfFile →
        Parser.Moves s T.stop i i (Parser.require .endOfFile) (s.token i) := by
      intro s hs hend
      have hconsume := Parser.Moves.consume hs (i := i)
      rw [Scanner.succ, if_pos hend] at hconsume
      refine hconsume.bind ?_
      rw [if_pos (beq_iff_eq.2 hend)]
      exact .pure _
    refine bind_of_moves (hmoves T.endsAt hend) (hmoves T.endsAt_right (halike.kind ▸ hend))
      fun _ => h ?_
    by_contra hne
    exact T.endsAt.before i (by omega) hend
  · exact checked_fails _ (P := (· == .endOfFile)) (by simpa using hend)

theorem requireWhere_bind {P : Kind → Bool} {what : String} {f g : Token → Parser α}
    (hP : P .endOfFile = false ∧ P .invalid = false)
    (h : P (T.kind i) → (T.left.token i).Alike (T.right.token i) →
      T.Runs (i + 1) (f (T.left.token i)) (g (T.right.token i)) R) :
    T.Runs i (Parser.requireWhere P what >>= f) (Parser.requireWhere P what >>= g) R :=
  checked_bind h fun hkind => isProper_of_test hkind hP

end Runs

/-! ## Values -/

/-- Wherever the parser starts, it reads values that differ in spans only. -/
def Passes [Located α] (T : Twin) (p : Parser α) : Prop :=
  ∀ i, T.Runs i p p fun j a a' => Same T.left i j a a'

/-- Wherever the parser starts, it consumes a token and reads values that differ in spans only. -/
def Reads [Located α] (T : Twin) (p : Parser α) : Prop :=
  ∀ i, T.Runs i p p fun j a a' => i < j ∧ Same T.left i j a a'

section

variable [Located α] {R : Nat → β → β → Prop} {p : Parser α} {f g : α → Parser β}

theorem Passes.bind (hp : T.Passes p)
    (h : ∀ j a a', i ≤ j → Same T.left i j a a' → T.Runs j (f a) (g a') R) :
    T.Runs i (p >>= f) (p >>= g) R := (hp i).bind h

theorem Reads.bind (hp : T.Reads p)
    (h : ∀ j a a', i < j → Same T.left i j a a' → T.Runs j (f a) (g a') R) :
    T.Runs i (p >>= f) (p >>= g) R :=
  (hp i).bind fun j a a' _ ⟨hij, ha⟩ => h j a a' hij ha

theorem Reads.passes (hp : T.Reads p) : T.Passes p := fun i => (hp i).mono fun _ _ _ _ h => h.2

/-- What is read behind token `i` is also read behind an earlier token. -/
theorem Reads.runs_of_le (hp : T.Reads p) (hij : i ≤ j) :
    T.Runs j p p fun k a a' => i < k ∧ Same T.left i k a a' :=
  (hp j).mono fun _ _ _ _ ⟨hjk, ha⟩ => ⟨by omega, ha.mono ⟨hij, le_rfl⟩⟩

theorem passes_accept {kind : Kind} (hkind : IsProper kind) :
    T.Passes (Parser.accept kind) := fun _ =>
  (Runs.accept hkind).mono fun _ _ _ hij hx => ⟨.nil hij, hx.1⟩

theorem Reads.passes_after {kind : Kind} (hp : T.Reads p) (hkind : IsProper kind) :
    T.Passes (Parser.after kind p) := by
  intro i
  refine .accept_bind hkind (fun _ => ?_) fun _ => ?_
  · exact hp.bind fun j a a' hij ha => .pure (ha.some.mono (by omega))
  · exact .pure (.none le_rfl)

/-- From token `i` on, the two parsers read the rest of a node that starts at token `start`, and
wait for its span. -/
def Makes (T : Twin) (start i : Nat) (p q : Parser (Span → α)) : Prop :=
  T.Runs i p q fun j make make' => start < j ∧
    Same T.left start j (make (T.left.spanOf start j)) (make' (T.right.spanOf start j))

theorem Makes.spanned {p q : Parser (Span → α)} (h : T.Makes i i p q) :
    T.Runs i (Parser.spanned p) (Parser.spanned q) fun j a a' => i < j ∧ Same T.left i j a a' := by
  refine .checkpoint_bind (Runs.bind h fun j make make' _ ⟨hij, hmake⟩ => ?_)
  exact .since_bind hij (.pure ⟨hij, hmake⟩)

theorem reads_spanned {p : Parser (Span → α)} (hp : ∀ i, T.Makes i i p p) :
    T.Reads (Parser.spanned p) := fun i => (hp i).spanned

end

/-! ## Repeating -/

/-- How one step of a repetition at token `i` ends at token `j`: it goes on with related values,
having consumed something, or is done. -/
inductive Steps (I D : Nat → α → α → Prop) (i j : Nat) : ForInStep α → ForInStep α → Prop
  | yield {a a'} : i < j → I j a a' → Steps I D i j (.yield a) (.yield a')
  | done {a a'} : D j a a' → Steps I D i j (.done a) (.done a')

theorem runs_repeatAtMost {I D : Nat → α → α → Prop} {step step' : α → Parser (ForInStep α)}
    (hstep : ∀ i a a', I i a a' → T.Runs i (step a) (step' a') (Steps I D i)) (m n i : Nat)
    (hm : T.stop < i + m) (hn : T.stop < i + n) (a a' : α) (ha : I i a a') :
    T.Runs i (Parser.repeatAtMost step m a) (Parser.repeatAtMost step' n a') D := by
  -- the rounds `m` and `n` may differ, but each side has more of them than tokens are left
  induction m generalizing n i a a' with
  | zero =>
    intro b c hb
    exact absurd hb.bound (by omega)
  | succ m ih =>
    cases n with
    | zero =>
      intro b c hb
      exact absurd hb.bound (by omega)
    | succ n =>
      unfold Parser.repeatAtMost
      refine (hstep i a a' ha).bind fun j r r' hij hr => ?_
      cases hr with
      | yield hlt ha => exact ih n j (by omega) (by omega) _ _ ha
      | done ha => exact .pure ha

theorem runs_repeatFrom {I D : Nat → α → α → Prop} {step step' : α → Parser (ForInStep α)}
    (hstep : ∀ i a a', I i a a' → T.Runs i (step a) (step' a') (Steps I D i)) {a a' : α}
    (ha : I i a a') : T.Runs i (Parser.repeatFrom a step) (Parser.repeatFrom a' step') D := by
  intro b c hb hc
  have hm := hb.rounds
  have hn := hc.rounds
  exact runs_repeatAtMost hstep b.rounds c.rounds i (by omega) (by omega) a a' ha b c hb hc

/-! ## Lists -/

/-- The values stand one behind the other: each is related by `V` from the token where the one
before it stops. -/
inductive Tiles (V : Nat → Nat → α → α → Prop) : Nat → Nat → List α → List α → Prop
  | nil (i : Nat) : Tiles V i i [] []
  | cons {i j k : Nat} {a a' : α} {as as' : List α} : i < j → V i j a a' → Tiles V j k as as' →
    Tiles V i k (a :: as) (a' :: as')

theorem Tiles.concat {V : Nat → Nat → α → α → Prop} {k : Nat} {as as' : List α} {a a' : α}
    (h : Tiles V i j as as') (hjk : j < k) (ha : V j k a a') :
    Tiles V i k (as ++ [a]) (as' ++ [a']) := by
  induction h with
  | nil => exact .cons hjk ha (.nil _)
  | cons hlt hV _ ih => exact .cons hlt hV (ih hjk ha)

theorem Tiles.imp {V W : Nat → Nat → α → α → Prop} {as as' : List α} (h : Tiles V i j as as')
    (hVW : ∀ i j a a', V i j a a' → W i j a a') : Tiles W i j as as' := by
  induction h with
  | nil => exact .nil _
  | cons hlt ha _ ih => exact .cons hlt (hVW _ _ _ _ ha) ih

theorem Tiles.same [Located α] {as as' : List α} (h : Tiles (Same T.left) i j as as') :
    Same T.left i j as as' := by
  induction h with
  | nil => exact .nil le_rfl
  | cons hlt ha _ ih => exact ha.singleton.append ih le_rfl

/-- An item that may be missing: none is there and nothing is consumed, or there are two that `V`
relates. -/
inductive Found (V : Nat → Nat → α → α → Prop) (i : Nat) : Nat → Option α → Option α → Prop
  | none : Found V i i .none .none
  | some {j a a'} : i < j → V i j a a' → Found V i j (.some a) (.some a')

theorem runs_collect {V : Nat → Nat → α → α → Prop} {item : Parser (Option α)}
    (hitem : ∀ i, T.Runs i item item (Found V i)) (i : Nat) :
    T.Runs i (Parser.collect item) (Parser.collect item) fun j => Tiles V i j := by
  unfold Parser.collect
  refine .bind (runs_repeatFrom (I := fun j as as' => Tiles V i j as.reverse as'.reverse)
    (D := fun j as as' => Tiles V i j as.reverse as'.reverse) (fun j as as' has => ?_) (.nil i))
    fun j as as' _ has => .pure has
  refine (hitem j).bind fun k r r' hjk hr => ?_
  cases hr with
  | none => exact .pure (.done has)
  | some hlt hV => exact .pure (.yield hlt (by simpa using has.concat hlt hV))

section

variable [Located α] {p : Parser α}

theorem Reads.passes_collect {kind : Kind} (hp : T.Reads p) (hkind : IsProper kind) :
    T.Passes (Parser.collect (Parser.after kind p)) := by
  refine fun i => (runs_collect (fun i => ?_) i).mono fun j as as' _ has => has.same
  refine .accept_bind hkind (fun _ => ?_) fun _ => .pure .none
  exact hp.bind fun j a a' hij ha => .pure (.some (by omega) (ha.mono (by omega)))

theorem Reads.separated {kind : Kind} (hp : T.Reads p) (hkind : IsProper kind) :
    T.Reads (Parser.separated kind p) := by
  intro i
  refine hp.bind fun j a a' hij ha => ?_
  refine (hp.passes_collect hkind).bind fun k as as' hjk has => ?_
  exact .pure ⟨by omega, ha.singleton.append has le_rfl⟩

theorem Reads.commaList {close : Kind} (hp : T.Reads p) (hclose : IsProper close) :
    T.Reads (Parser.commaList close p) := by
  intro i
  unfold Parser.commaList
  refine .bind (runs_repeatFrom (I := fun j as as' => Same T.left i j as.reverse as'.reverse)
    (D := fun j as as' => i < j ∧ Same T.left i j as.reverse as'.reverse)
    (fun j as as' has => ?_) (.nil le_rfl)) fun j as as' _ has => .pure has
  have hij := has.fits.le
  refine .accept_bind hclose (fun _ => ?_) fun _ => ?_
  · exact .pure (.done ⟨by omega, has.mono (by omega)⟩)
  · refine hp.bind fun k a a' hjk ha => ?_
    have hitems : Same T.left i k (a :: as).reverse (a' :: as').reverse := by
      simpa using has.append ha.singleton le_rfl
    refine .accept_bind (by decide) (fun _ => ?_) fun _ => ?_
    · exact .pure (.yield (by omega) (hitems.mono (by omega)))
    · refine .require_bind hclose fun _ _ => ?_
      exact .pure (.done ⟨by omega, hitems.mono (by omega)⟩)

end

end Twin

end Ambient
