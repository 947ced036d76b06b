import Ambient.Proofs.Parsers
import Ambient.Proofs.Tracking
/-!
# Two parsers side by side

Two parsers read the same token stream, each with a buffer of its own. They agree if they stop at
the same token with the same value, spans included, or else the first one fails (`Parser.Pairs`).
What the second one may do where the first one fails is a `Tolerance`. Besides, the second one may
go astray: it succeeds alone but stops at a `=>`, which nothing that can follow accepts.

Buffers that stand on the same token may have read different numbers of tokens. Only the span of an
empty piece of text can tell them apart, so it matters whether a parser looks at a token at all
(`Parser.Looks`). Like `Parser.Keeps`, agreement is found by instance search along the structure of
the parsers.
-/

namespace Ambient

variable {α β : Type}

/-! ## One run -/

/-- The parser fails, or it gives a value and stops at a token that `P` relates to it. -/
inductive Reply.Arrives (s : Scanner) (P : α → Nat → Prop) : Reply α → Prop
  | ok {a j c} : c.Stands s j → P a j → Arrives s P (.ok a c)
  | fail {e c} : Arrives s P (.fail e c)

/-- Where the parser stops, from token `i` of the stream on, if it succeeds. -/
def Parser.Arrives (s : Scanner) (i : Nat) (p : Parser α) (P : α → Nat → Prop) : Prop :=
  ∀ c : Buffer, c.Stands s i → (p c).Arrives s P

namespace Parser.Arrives

variable {s : Scanner} {i : Nat} {P : α → Nat → Prop} {Q : β → Nat → Prop}

theorem pure {a : α} (h : P a i) : Arrives s i (Pure.pure a) P := fun _ hc => .ok hc h

theorem failWith {e : SyntaxError} : Arrives s i (Parser.failWith e) P := fun _ _ => .fail

theorem bind {p : Parser α} {f : α → Parser β} (hp : Arrives s i p P)
    (hf : ∀ a j, P a j → Arrives s j (f a) Q) : Arrives s i (p >>= f) Q := by
  intro c hc
  change (andThen p f c).Arrives s Q
  have hp := hp c hc
  unfold andThen
  generalize p c = r at hp ⊢
  cases hp with
  | ok hc' h => exact hf _ _ h _ hc'
  | fail => exact .fail

theorem mono {p : Parser α} {P' : α → Nat → Prop} (hp : Arrives s i p P)
    (h : ∀ a j, P a j → P' a j) : Arrives s i p P' := by
  intro c hc
  have hp := hp c hc
  generalize p c = r at hp ⊢
  cases hp with
  | ok hc' hP => exact .ok hc' (h _ _ hP)
  | fail => exact .fail

/-- Behind a parser whose moves are known. -/
theorem behind {p : Parser α} {f : α → Parser β} {a : α} {j : Nat} (hp : Goes s i j p a)
    (hf : Arrives s j (f a) Q) : Arrives s i (p >>= f) Q := by
  intro c hc
  obtain ⟨c', hrun, hleads⟩ := hp.run f hc
  rw [hrun]
  exact hf c' hleads.stands

theorem since_bind {start : Nat} {f : Span → Parser β} (hf : ∀ span, Arrives s i (f span) Q) :
    Arrives s i (Parser.since start >>= f) Q := fun c hc => hf (c.since start) c hc

theorem accept_of_ne {kind : Kind} {f : Bool → Parser β} (hkind : (s.token i).kind ≠ kind)
    (hf : Arrives s i (f false) Q) : Arrives s i (accept kind >>= f) Q := by
  unfold accept tryKind
  simp only [bind_assoc]
  refine behind .peek ?_
  rw [if_neg (by simpa using hkind)]
  simp only [pure_bind]
  exact hf

theorem after_of_ne {kind : Kind} {p : Parser α} {f : Option α → Parser β}
    (hkind : (s.token i).kind ≠ kind) (hf : Arrives s i (f none) Q) :
    Arrives s i (after kind p >>= f) Q := by
  unfold after
  rw [bind_assoc]
  refine accept_of_ne hkind ?_
  simpa using hf

theorem require_bind {kind : Kind} {f : Token → Parser β}
    (hf : (s.token i).kind = kind → Arrives s (s.succ i) (f (s.token i)) Q) :
    Arrives s i (require kind >>= f) Q := by
  unfold require
  rw [bind_assoc]
  refine behind .consume ?_
  split
  · rename_i hkind
    rw [pure_bind]
    exact hf (by simpa using hkind)
  · exact fun _ _ => .fail

theorem requireWhere_bind {p : Kind → Bool} {what : String} {f : Token → Parser β}
    (hf : p (s.token i).kind → Arrives s (s.succ i) (f (s.token i)) Q) :
    Arrives s i (requireWhere p what >>= f) Q := by
  unfold requireWhere
  rw [bind_assoc]
  refine behind .consume ?_
  split
  · rename_i hkind
    rw [pure_bind]
    exact hf hkind
  · exact fun _ _ => .fail

theorem spanned {p : Parser (Span → α)} (hp : Arrives s i p fun make j => ∀ span, P (make span) j) :
    Arrives s i (Parser.spanned p) P := by
  unfold Parser.spanned
  refine behind .checkpoint (bind hp fun make j h => ?_)
  exact since_bind fun span => pure (h span)

/-- A repetition that is done after its first step. -/
theorem repeatFrom {step : α → Parser (ForInStep α)} {a : α}
    (hstep : Arrives s i (step a) fun r j => ∃ x, r = .done x ∧ P x j) :
    Arrives s i (Parser.repeatFrom a step) P := by
  intro c hc
  unfold Parser.repeatFrom
  cases c.rounds with
  | zero => exact .fail
  | succ rounds =>
    refine bind hstep (fun r j h => ?_) c hc
    obtain ⟨x, rfl, hx⟩ := h
    exact pure hx

end Parser.Arrives

/-! ## Two runs -/

/-- What the second of two parsers may do where the first one fails with an error: fail with some
error, or succeed (`none`). Where it may succeed it may do anything. -/
structure Tolerance where
  allows : SyntaxError → Option SyntaxError → Prop
  refl : ∀ e, allows e (some e)
  any : ∀ {e}, allows e none → ∀ x, allows e x

/-- The error of a parser that fails. -/
def Reply.error? : Reply α → Option SyntaxError
  | .ok _ _ => none
  | .fail e _ => some e

/-- Two buffers over one source text that stand on token `i` and have read `n` tokens or more. -/
structure Buffer.Beside (s : Scanner) (n i : Nat) (b c : Buffer) : Prop where
  left : b.Stands s i
  right : c.Stands s i
  manyLeft : n ≤ b.seen.size
  manyRight : n ≤ c.seen.size
  limits : b.limits = c.limits

namespace Buffer.Beside

variable {s : Scanner} {n m i j : Nat} {b c : Buffer}

theorem mono (h : Beside s n i b c) (hm : m ≤ n) : Beside s m i b c :=
  ⟨h.left, h.right, hm.trans h.manyLeft, hm.trans h.manyRight, h.limits⟩

theorem reached (h : Beside s n i b c) : Beside s (max n i) i b c :=
  ⟨h.left, h.right, max_le h.manyLeft h.left.reached, max_le h.manyRight h.right.reached, h.limits⟩

theorem leads {b' c' : Buffer} (h : Beside s n i b c) (hb : b.Leads s i j b')
    (hc : c.Leads s i j c') : Beside s n j b' c' :=
  ⟨hb.stands, hc.stands, h.manyLeft.trans hb.grows, h.manyRight.trans hc.grows,
    hb.limits.trans (h.limits.trans hc.limits.symm)⟩

theorem moved (h : Beside s n j b c) (hi : i ≤ n) :
    Beside s n i { b with cursor := i } { c with cursor := i } :=
  ⟨h.left.moved (hi.trans h.manyLeft), h.right.moved (hi.trans h.manyRight), h.manyLeft,
    h.manyRight, h.limits⟩

theorem look (h : Beside s n i b c) : Beside s (max n (i + 1)) i b.look.2 c.look.2 where
  left := h.left.look.2.1
  right := h.right.look.2.1
  manyLeft := max_le (h.manyLeft.trans b.size_seen_look) h.left.look.2.2
  manyRight := max_le (h.manyRight.trans c.size_seen_look) h.right.look.2.2
  limits := by rw [limits_look, limits_look, h.limits]

theorem consume (h : Beside s n i b c) :
    Beside s (max n (i + 1)) (s.succ i) b.consume.2 c.consume.2 where
  left := h.left.consume.2.1
  right := h.right.consume.2.1
  manyLeft := max_le (h.manyLeft.trans b.size_seen_consume) h.left.consume.2.2
  manyRight := max_le (h.manyRight.trans c.size_seen_consume) h.right.consume.2.2
  limits := by rw [limits_consume, limits_consume, h.limits]

/-- Spans that start at a token which both have read are the same. -/
theorem since {start : Nat} (h : Beside s n i b c) (hstart : start < n) :
    b.since start = c.since start := by
  by_cases hlt : start < i
  · rw [h.left.since hlt, h.right.since hlt]
  · unfold Buffer.since
    rw [h.left.cursor, h.right.cursor, if_neg hlt, if_neg hlt,
      h.left.seen start (hstart.trans_le h.manyLeft),
      h.right.seen start (hstart.trans_le h.manyRight)]

end Buffer.Beside

/-- How two runs end: with the same value at the same token, or the first one fails. Then the second
one does what is tolerated, or it has gone astray with a value for which `E` holds. That can be only
where any error would be tolerated. -/
inductive Reply.Agree (T : Tolerance) (s : Scanner) (n : Nat) (E : α → Prop) :
    Reply α → Reply α → Prop
  | ok {a j b c} : Buffer.Beside s n j b c → Agree T s n E (.ok a b) (.ok a c)
  | fail {e b y} : T.allows e y.error? → Agree T s n E (.fail e b) y
  | astray {a e j b c} : (∀ e', T.allows e (some e')) → c.Stands s j →
    (s.token j).kind = .equalsChevronRight → E a → Agree T s n E (.fail e b) (.ok a c)

/-- From token `i` on, where `n` tokens have been read on both sides, `p` and `q` agree, and then
`m` tokens have been read. -/
def Parser.Pairs (T : Tolerance) (s : Scanner) (n m i : Nat) (E : α → Prop) (p q : Parser α) :
    Prop :=
  ∀ b c, Buffer.Beside s n i b c → Reply.Agree T s m E (p b) (q c)

namespace Parser

namespace Pairs

variable {T : Tolerance} {s : Scanner} {n m k i : Nat} {E : α → Prop} {F : β → Prop}

theorem pure (a : α) : Pairs T s n n i E (Pure.pure a) (Pure.pure a) := fun _ _ h => .ok h

theorem failWith (e : SyntaxError) :
    Pairs T s n m i E (Parser.failWith e) (Parser.failWith e) := fun _ _ _ => .fail (T.refl e)

/-- The second parser may go astray before it goes on, if it then fails or stays astray. -/
theorem bind {p q : Parser α} {f g : α → Parser β} (hp : Pairs T s n m i E p q)
    (hf : ∀ a j, Pairs T s m k j F (f a) (g a))
    (hg : ∀ a, E a → ∀ j, (s.token j).kind = .equalsChevronRight →
      (g a).Arrives s j fun x j => F x ∧ (s.token j).kind = .equalsChevronRight) :
    Pairs T s n k i F (p >>= f) (q >>= g) := by
  intro b c h
  have hp := hp b c h
  change Reply.Agree T s k F (andThen p f b) (andThen q g c)
  unfold andThen
  generalize p b = x at hp ⊢
  generalize q c = y at hp ⊢
  cases hp with
  | ok h => exact hf _ _ _ _ h
  | @fail e b y hallows =>
    cases y with
    | ok a c => exact .fail (T.any hallows _)
    | fail e' c => exact .fail hallows
  | @astray a e j b c hany hc harrow hE =>
    have hg := hg a hE j harrow c hc
    dsimp only
    generalize g a c = z at hg ⊢
    cases hg with
    | ok hc' h => exact .astray hany hc' h.2 h.1
    | fail => exact .fail (hany _)

theorem mono {p q : Parser α} {E' : α → Prop} (hp : Pairs T s n m i E p q) (hm : k ≤ m)
    (hE : ∀ a, E a → E' a) : Pairs T s n k i E' p q := by
  intro b c h
  have hp := hp b c h
  generalize p b = x at hp ⊢
  generalize q c = y at hp ⊢
  cases hp with
  | ok h => exact .ok (h.mono hm)
  | fail hallows => exact .fail hallows
  | astray hany hc harrow ha => exact .astray hany hc harrow (hE _ ha)

theorem peek_bind {f g : Token → Parser β}
    (hf : Pairs T s (max n (i + 1)) m i F (f (s.token i)) (g (s.token i))) :
    Pairs T s n m i F (Parser.peek >>= f) (Parser.peek >>= g) := by
  intro b c h
  have hf := hf b.look.2 c.look.2 h.look
  change Reply.Agree T s m F (f b.look.1 b.look.2) (g c.look.1 c.look.2)
  rw [h.left.look.1, h.right.look.1]
  exact hf

theorem consume_bind {f g : Token → Parser β}
    (hf : Pairs T s (max n (i + 1)) m (s.succ i) F (f (s.token i)) (g (s.token i))) :
    Pairs T s n m i F (Parser.consume >>= f) (Parser.consume >>= g) := by
  intro b c h
  have hf := hf b.consume.2 c.consume.2 h.consume
  change Reply.Agree T s m F (f b.consume.1 b.consume.2) (g c.consume.1 c.consume.2)
  rw [h.left.consume.1, h.right.consume.1]
  exact hf

theorem checkpoint_bind {f g : Nat → Parser β} (hf : Pairs T s n m i F (f i) (g i)) :
    Pairs T s n m i F (Parser.checkpoint >>= f) (Parser.checkpoint >>= g) := by
  intro b c h
  change Reply.Agree T s m F (f b.cursor b) (g c.cursor c)
  rw [h.left.cursor, h.right.cursor]
  exact hf b c h

theorem since_bind {start : Nat} {f g : Span → Parser β} (hstart : start < n)
    (hf : ∀ span, Pairs T s n m i F (f span) (g span)) :
    Pairs T s n m i F (Parser.since start >>= f) (Parser.since start >>= g) := by
  intro b c h
  change Reply.Agree T s m F (f (b.since start) b) (g (c.since start) c)
  rw [h.since hstart]
  exact hf _ b c h

end Pairs

/-! ## Parsers on a `=>` -/

/-- On a `=>` the parser fails or, if `loose`, stays on one. -/
class Stays (loose : Bool) (p : Parser α) : Prop where
  arrives : ∀ {s : Scanner} {i : Nat}, (s.token i).kind = .equalsChevronRight →
    p.Arrives s i fun _ j => loose = true ∧ (s.token j).kind = .equalsChevronRight

section

variable {loose : Bool} {kind : Kind}

instance : Fact (Kind.comma ≠ .equalsChevronRight) := ⟨nofun⟩
instance : Fact (Kind.equals ≠ .equalsChevronRight) := ⟨nofun⟩
instance : Fact (Kind.semicolon ≠ .equalsChevronRight) := ⟨nofun⟩
instance : Fact (Kind.braceClose ≠ .equalsChevronRight) := ⟨nofun⟩
instance : Fact (Kind.bracketClose ≠ .equalsChevronRight) := ⟨nofun⟩
instance : Fact (Kind.chevronRight ≠ .equalsChevronRight) := ⟨nofun⟩
instance : Fact (Kind.parenthesisClose ≠ .equalsChevronRight) := ⟨nofun⟩

instance stays_pure (a : α) : Stays true (pure a : Parser α) := ⟨fun h => .pure ⟨rfl, h⟩⟩

instance stays_failWith (e : SyntaxError) : Stays loose (failWith e : Parser α) :=
  ⟨fun _ => .failWith⟩

instance stays_bind (p : Parser α) (f : α → Parser β) [hp : Stays true p]
    [hf : ∀ a, Stays loose (f a)] : Stays loose (p >>= f) :=
  ⟨fun h => (hp.arrives h).bind fun a _ hj => (hf a).arrives hj.2⟩

instance stays_bind_of_false (p : Parser α) (f : α → Parser β) [hp : Stays false p] :
    Stays loose (p >>= f) :=
  ⟨fun h => (hp.arrives h).bind fun _ _ hj => absurd hj.1 Bool.false_ne_true⟩

instance stays_ite (c : Prop) [Decidable c] (p q : Parser α) [Stays loose p] [Stays loose q] :
    Stays loose (if c then p else q) := by
  split
  · assumption
  · assumption

instance stays_peek_bind (f : Token → Parser β) [hf : ∀ t, Stays loose (f t)] :
    Stays loose (peek >>= f) := ⟨fun h => .behind .peek ((hf _).arrives h)⟩

instance stays_accept_bind (f : Bool → Parser β) [hkind : Fact (kind ≠ .equalsChevronRight)]
    [hf : Stays loose (f false)] : Stays loose (accept kind >>= f) :=
  ⟨fun h => .accept_of_ne (h ▸ hkind.1.symm) (hf.arrives h)⟩

instance stays_ite_false (p q : Parser α) [Stays loose q] :
    Stays loose (if false = true then p else q) := by
  rwa [if_neg Bool.false_ne_true]

instance stays_after (p : Parser α) [hkind : Fact (kind ≠ .equalsChevronRight)] :
    Stays true (after kind p) := by
  refine ⟨fun {s i} h => ?_⟩
  rw [← bind_pure (after kind p)]
  exact .after_of_ne (h ▸ hkind.1.symm) (.pure ⟨rfl, h⟩)

instance stays_spanned (p : Parser (Span → α)) [hp : Stays loose p] : Stays loose (spanned p) :=
  ⟨fun h => .spanned ((hp.arrives h).mono fun _ _ hj _ => hj)⟩

instance stays_statementEnd : Stays true statementEnd := by
  unfold statementEnd
  infer_instance

instance stays_require [hkind : Fact (kind ≠ .equalsChevronRight)] :
    Stays false (require kind) := by
  refine ⟨fun {s i} h => ?_⟩
  rw [← bind_pure (require kind)]
  refine .require_bind fun heq => ?_
  exact absurd (heq.symm.trans h) hkind.1

end

/-! ## Agreement by instance search -/

/-- The parsers agree, whatever has been read before. If `loose`, the second one may go astray. -/
class Agrees (T : Tolerance) (loose : Bool) (p q : Parser α) : Prop where
  pairs : ∀ {s : Scanner} {n i : Nat}, Pairs T s n n i (fun _ => loose = true) p q

/-- The parsers agree and look at the next token. -/
class Looks (T : Tolerance) (loose : Bool) (p q : Parser α) : Prop where
  pairs : ∀ {s : Scanner} {n i : Nat}, Pairs T s n (max n (i + 1)) i (fun _ => loose = true) p q

section

variable {T : Tolerance} {loose : Bool} {kind : Kind}

instance agrees_of_looks (p q : Parser α) [h : Looks T loose p q] : Agrees T loose p q :=
  ⟨h.pairs.mono (le_max_left _ _) fun _ h => h⟩

instance (priority := low) looks_loosely (p q : Parser α) [h : Looks T false p q] :
    Looks T true p q := ⟨h.pairs.mono le_rfl fun _ _ => rfl⟩

instance agrees_pure (a : α) : Agrees T loose (pure a) (pure a) := ⟨.pure a⟩

instance agrees_failWith (e : SyntaxError) : Agrees T loose (failWith e : Parser α) (failWith e) :=
  ⟨.failWith e⟩

theorem Agrees.bind_pairs {s : Scanner} {n m i : Nat} {F : β → Prop} {p q : Parser α}
    {f g : α → Parser β} (hp : Agrees T false p q) (hf : ∀ a j, Pairs T s n m j F (f a) (g a)) :
    Pairs T s n m i F (p >>= f) (q >>= g) :=
  hp.pairs.bind hf fun _ h => absurd h Bool.false_ne_true

theorem Looks.bind_pairs {s : Scanner} {n m i : Nat} {F : β → Prop} {p q : Parser α}
    {f g : α → Parser β} (hp : Looks T false p q)
    (hf : ∀ a j, Pairs T s (max n (i + 1)) m j F (f a) (g a)) :
    Pairs T s n m i F (p >>= f) (q >>= g) :=
  hp.pairs.bind hf fun _ h => absurd h Bool.false_ne_true

instance agrees_bind_loose (p q : Parser α) (f g : α → Parser β) [hp : Agrees T true p q]
    [hf : ∀ a, Agrees T loose (f a) (g a)] [hg : ∀ a, Stays loose (g a)] :
    Agrees T loose (p >>= f) (q >>= g) :=
  ⟨hp.pairs.bind (fun a _ => (hf a).pairs) fun a _ _ h => (hg a).arrives h⟩

theorem Agrees.bind {p q : Parser α} {f g : α → Parser β} (hp : Agrees T false p q)
    (hf : ∀ a, Agrees T loose (f a) (g a)) : Agrees T loose (p >>= f) (q >>= g) :=
  ⟨hp.bind_pairs fun a _ => (hf a).pairs⟩

instance agrees_bind (p q : Parser α) (f g : α → Parser β) [hp : Agrees T false p q]
    [hf : ∀ a, Agrees T loose (f a) (g a)] : Agrees T loose (p >>= f) (q >>= g) := hp.bind hf

instance looks_bind_loose (p q : Parser α) (f g : α → Parser β) [hp : Looks T true p q]
    [hf : ∀ a, Agrees T loose (f a) (g a)] [hg : ∀ a, Stays loose (g a)] :
    Looks T loose (p >>= f) (q >>= g) :=
  ⟨hp.pairs.bind (fun a _ => (hf a).pairs) fun a _ _ h => (hg a).arrives h⟩

theorem Looks.bind {p q : Parser α} {f g : α → Parser β} (hp : Looks T false p q)
    (hf : ∀ a, Agrees T loose (f a) (g a)) : Looks T loose (p >>= f) (q >>= g) :=
  ⟨hp.bind_pairs fun a _ => (hf a).pairs⟩

instance looks_bind (p q : Parser α) (f g : α → Parser β) [hp : Looks T false p q]
    [hf : ∀ a, Agrees T loose (f a) (g a)] : Looks T loose (p >>= f) (q >>= g) := hp.bind hf

instance agrees_ite (c : Prop) [Decidable c] (p q p' q' : Parser α) [Agrees T loose p p']
    [Agrees T loose q q'] : Agrees T loose (if c then p else q) (if c then p' else q') := by
  split
  · assumption
  · assumption

instance looks_ite (c : Prop) [Decidable c] (p q p' q' : Parser α) [Looks T loose p p']
    [Looks T loose q q'] : Looks T loose (if c then p else q) (if c then p' else q') := by
  split
  · assumption
  · assumption

instance looks_peek : Looks T loose peek peek := by
  refine ⟨fun {s n i} => ?_⟩
  rw [← bind_pure peek]
  exact .peek_bind (.pure _)

instance looks_consume : Looks T loose consume consume := by
  refine ⟨fun {s n i} => ?_⟩
  rw [← bind_pure consume]
  exact .consume_bind (.pure _)

instance agrees_sourceSpan : Agrees T loose sourceSpan sourceSpan := by
  refine ⟨fun b c h => ?_⟩
  have hsize : b.size = c.size := congrArg Prod.snd h.limits
  change Reply.Agree T _ _ _ (.ok (Span.mk 0 b.size) b) (.ok (Span.mk 0 c.size) c)
  rw [hsize]
  exact .ok h

instance looks_lookahead (p q : Parser α) [hp : Looks T false p q] :
    Looks T loose (lookahead p) (lookahead q) := by
  refine ⟨fun {s n i} b c h => ?_⟩
  have hp := hp.pairs b c h.reached
  have hle : i ≤ max (max n i) (i + 1) := by omega
  unfold lookahead
  rw [h.left.cursor, h.right.cursor]
  generalize p b = x at hp ⊢
  generalize q c = y at hp ⊢
  cases hp with
  | ok h => exact .ok ((h.moved hle).mono (by omega))
  | @fail e b y hallows =>
    cases y with
    | ok a c => exact .fail hallows
    | fail e' c => exact .fail hallows
  | astray _ _ _ h => exact absurd h Bool.false_ne_true

theorem Looks.spanned {p q : Parser (Span → α)} (hp : Looks T loose p q) :
    Looks T loose (spanned p) (spanned q) := by
  refine ⟨fun {s n i} => ?_⟩
  unfold Parser.spanned
  refine .checkpoint_bind (hp.pairs.bind (fun make j => ?_) fun make h j harrow => ?_)
  · exact .since_bind (by omega) fun span => .pure _
  · exact .since_bind fun span => .pure ⟨h, harrow⟩

instance looks_spanned (p q : Parser (Span → α)) [hp : Looks T loose p q] :
    Looks T loose (spanned p) (spanned q) := hp.spanned

/-! ## Repetition -/

/-- A step of a repetition may send the second parser astray if that one goes on and the next step
fails on a `=>`. -/
theorem pairs_repeatFrom {s : Scanner} {N : Nat} {step step' : α → Parser (ForInStep α)}
    {E : ForInStep α → Prop} {F : α → Prop}
    (hstep : ∀ a {n} i, N ≤ n → Pairs T s n (max n (i + 1)) i E (step a) (step' a))
    (hdone : ∀ a, ¬ E (.done a)) (hyield : ∀ a, E (.yield a) → ∀ a, Stays false (step' a))
    (a : α) {n i : Nat} (hn : N ≤ n) :
    Pairs T s n (max n (i + 1)) i F (repeatFrom a step) (repeatFrom a step') := by
  have hrun : ∀ rounds a {n} i, N ≤ n → Pairs T s n (max n (i + 1)) i F
      (repeatAtMost step rounds a) (repeatAtMost step' rounds a) := by
    intro rounds
    induction rounds with
    | zero => exact fun a n i _ => .failWith _
    | succ rounds ih =>
      intro a n i hn
      refine (hstep a i hn).bind (fun r j => ?_) fun r hr j harrow => ?_
      · cases r with
        | yield a => exact (ih a j (by omega)).mono (by omega) fun _ h => h
        | done a => exact .pure a
      · cases r with
        | yield a =>
          cases rounds with
          | zero => exact .failWith
          | succ rounds =>
            refine ((hyield a hr a).arrives harrow).bind fun _ _ h => ?_
            exact absurd h.1 Bool.false_ne_true
        | done a => exact absurd hr (hdone a)
  intro b c h
  have hrounds : b.rounds = c.rounds := congrArg Prod.fst h.limits
  unfold repeatFrom
  rw [hrounds]
  exact hrun c.rounds a i hn b c h

instance looks_repeatFrom (a : α) (step step' : α → Parser (ForInStep α))
    [hstep : ∀ a, Looks T false (step a) (step' a)] :
    Looks T loose (repeatFrom a step) (repeatFrom a step') :=
  ⟨pairs_repeatFrom (fun a _ _ _ => (hstep a).pairs) (fun _ h => absurd h Bool.false_ne_true)
    (fun _ h => absurd h Bool.false_ne_true) a (Nat.zero_le _)⟩

/-! ## The parsers that every grammar needs -/

instance looks_peek2 : Looks T loose peek2 peek2 := by unfold peek2; infer_instance

instance looks_peek3 : Looks T loose peek3 peek3 := by unfold peek3; infer_instance

instance looks_peek4 : Looks T loose peek4 peek4 := by unfold peek4; infer_instance

instance looks_peekKind : Looks T loose peekKind peekKind := by unfold peekKind; infer_instance

instance looks_tryKind : Looks T loose (tryKind kind) (tryKind kind) := by
  unfold tryKind
  infer_instance

instance looks_accept : Looks T loose (accept kind) (accept kind) := by
  unfold accept
  infer_instance

instance looks_require : Looks T loose (require kind) (require kind) := by
  unfold require
  infer_instance

instance looks_requireWhere (p : Kind → Bool) (what : String) :
    Looks T loose (requireWhere p what) (requireWhere p what) := by
  unfold requireWhere
  infer_instance

instance looks_nameWithSpan : Looks T loose nameWithSpan nameWithSpan := by
  unfold nameWithSpan
  infer_instance

instance looks_name : Looks T loose name name := by unfold name; infer_instance

instance looks_statementEnd : Looks T loose statementEnd statementEnd := by
  unfold statementEnd
  infer_instance

instance looks_after (p q : Parser α) [Looks T loose p q] :
    Looks T loose (after kind p) (after kind q) := by
  unfold after
  cases loose <;> infer_instance

/-- An item may send the second parser astray if no other item starts with a `=>`. -/
theorem Looks.collect {item item' : Parser (Option α)} {E : Option α → Prop}
    (hitem : ∀ {s n i}, Pairs T s n (max n (i + 1)) i E item item') (hnone : ¬ E none)
    (hsome : ∀ a, E (some a) → Stays false item') :
    Looks T loose (collect item) (collect item') := by
  unfold Parser.collect
  refine ⟨fun {s n i} => Pairs.bind (E := fun _ => False) ?_ (fun items _ => .pure _)
    fun _ h => h.elim⟩
  refine pairs_repeatFrom (N := 0) (E := fun r => ∃ a items, r = .yield (a :: items) ∧ E (some a))
    (fun items {m} j _ => ?_) (fun _ h => ?_) (fun _ h items => ?_) [] (Nat.zero_le _)
  · refine hitem.bind (fun r k => ?_) fun r hr k harrow => ?_
    · cases r <;> exact .pure _
    · cases r with
      | none => exact absurd hr hnone
      | some a => exact .pure ⟨⟨a, items, rfl, hr⟩, harrow⟩
  · obtain ⟨_, _, h, -⟩ := h
    cases h
  · obtain ⟨a, _, -, h⟩ := h
    have hstays := hsome a h
    infer_instance

instance looks_collect (item item' : Parser (Option α)) [hitem : Looks T false item item'] :
    Looks T loose (collect item) (collect item') :=
  .collect hitem.pairs Bool.false_ne_true fun _ h => absurd h Bool.false_ne_true

instance looks_separated (separator : Kind) (item item' : Parser α) [Looks T false item item'] :
    Looks T loose (separated separator item) (separated separator item') := by
  unfold separated
  infer_instance

instance looks_commaList (close : Kind) (item item' : Parser α)
    [Fact (close ≠ .equalsChevronRight)] [Looks T true item item'] :
    Looks T loose (commaList close item) (commaList close item') := by
  unfold commaList
  infer_instance

end

end Parser

end Ambient
