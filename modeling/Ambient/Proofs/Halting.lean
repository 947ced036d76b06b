import Ambient.Proofs.Tracking
/-!
# Where the token stream halts

From some token on the stream of a text brings nothing new: it is the end of the text over and over,
or an empty identifier over and over. A `Horizon` is a stream with that place. A parser that comes
there must not go round in circles. It is followed token by token: from where it starts it ends in
one way, whatever the buffer has read and however many rounds are allowed, if they are enough to
reach the horizon (`Horizon.Halts`). It fails with an error about tokens of the stream, never for
want of rounds, or it stops at a known place.
-/

namespace Ambient

/-! ## Tokens without text -/

namespace Lexeme

theorem text_ofNumber (wellFormed : Bool) (text rest : List Char) :
    (ofNumber wellFormed text rest).text = text := by
  cases wellFormed <;> rfl

theorem text_number_ne_nil {c : Char} {cs : List Char}
    (h : c.isDigit || (c == '.' && cs.head?.any Char.isDigit)) : (number (c :: cs)).text ≠ [] := by
  have hdecimal : (decimal (c :: cs)).text ≠ [] := by
    unfold decimal
    rw [text_ofNumber]
    by_cases hc : c.isDigit
    · simp [hc]
    -- a number that does not start with a digit starts with its point
    · obtain rfl : c = '.' := by simp_all
      simp [fraction, hc]
  unfold number
  split
  · split
    · simp [text_ofNumber]
    · rename_i heq _
      rw [heq] at hdecimal
      exact hdecimal
  · exact hdecimal

/-- Only where a word starts can nothing be read. -/
theorem startsWord_of_text_eq_nil {c : Char} {cs : List Char} (h : (read (c :: cs)).text = []) :
    startsWord c := by
  have hsigns : ∀ s ∈ signs, s.1 ≠ [] := by decide
  by_contra hstart
  rw [read, if_neg hstart] at h
  split_ifs at h
  · rename_i hnumber
    exact text_number_ne_nil hnumber h
  · unfold string at h
    split at h <;> cases h
  · split at h
    · rename_i text kind hfind
      exact hsigns _ (List.mem_of_find?_eq_some hfind) h
    · cases h

theorem read_of_startsWord {c : Char} (h : startsWord c) (cs : List Char) :
    read (c :: cs) = word (c :: cs) := by
  rw [read, if_pos h]

theorem kind_of_text_eq_nil {cs : List Char} (h : (read cs).text = []) :
    (read cs).kind = .endOfFile ∨ (read cs).kind = .identifier := by
  cases cs with
  | nil => exact .inl rfl
  | cons c cs =>
    have hstart := startsWord_of_text_eq_nil h
    rw [read_of_startsWord hstart] at h ⊢
    unfold word at h ⊢
    split at h
    · rename_i kind hkind
      dsimp only at h
      have hnone : Kind.ofWord? [] = none := by decide
      rw [h, hnone] at hkind
      cases hkind
    · exact .inr rfl

end Lexeme

namespace Scanner

/-- A token without text is the end of the text or an empty identifier, and no line break lies
behind it. -/
theorem halts_of_text_eq_nil {s : Scanner} (h : s.next.1.text = []) :
    (s.next.1.kind = .endOfFile ∨ s.next.1.kind = .identifier) ∧
      s.next.2.next.1.newlineBefore = false := by
  have hgap := ends_gap false s.offset s.rest
  unfold next at h
  rw [next.eq_def s]
  generalize gap false s.offset s.rest = r at hgap h ⊢
  cases r with
  | unclosed newline offset comment =>
    obtain ⟨g, -, -, -, hne⟩ := hgap
    exact absurd h hne
  | passed newline offset rest =>
    obtain ⟨g, -, -, -, hsolid⟩ := hgap
    have hrest : (Lexeme.read rest).rest = rest := by
      have hsplit := (Lexeme.cuts_read rest).split
      rwa [show (Lexeme.read rest).text = [] from h, List.nil_append] at hsplit
    refine ⟨Lexeme.kind_of_text_eq_nil h, ?_⟩
    rw [next_eq_place (show IsSolid (Lexeme.read rest).rest from hrest.symm ▸ hsolid)]
    rfl

/-- Behind the end of the text there is only the end of the text. -/
theorem kind_eq_endOfFile {s : Scanner} {k : Nat} (h : (s.token k).kind = .endOfFile) (d : Nat) :
    (s.token (k + d)).kind = .endOfFile := by
  induction d with
  | zero => exact h
  | succ d ih =>
    have hrest := ((s.reads_token (k + d)).ended ih).2
    change (s.after (k + d + 1)).next.1.kind = _
    rw [next_eq_place (hrest.symm ▸ isSolid_nil), hrest]
    rfl

end Scanner

/-! ## The horizon -/

/-- A token stream, the size of its text, and its first token `stop` that has no text. From there on
it is all the end of the text or all empty identifiers. A parser that succeeds stops at token `last`
at the furthest: the end of the text is never passed, and of the empty identifiers at most one. -/
structure Horizon where
  scanner : Scanner
  size : Nat
  stop : Nat
  last : Nat
  before : ∀ k < stop, (scanner.token k).text ≠ []
  beyond : last = stop ∧ (scanner.token stop).kind = .endOfFile ∨
    last = stop + 1 ∧ ∀ k, stop ≤ k →
      (scanner.token k).kind = .identifier ∧ (scanner.token k).text = []
  unbroken : (scanner.token (stop + 1)).newlineBefore = false

/-- The kinds that a token without text never has. -/
def Kind.IsFirm (kind : Kind) : Prop := kind ≠ .endOfFile ∧ kind ≠ .identifier

instance (kind : Kind) : Decidable kind.IsFirm := inferInstanceAs (Decidable (_ ∧ _))

namespace Horizon

variable {H : Horizon} {i j : Nat}

/-- Token `i` of the stream. -/
def token (H : Horizon) (i : Nat) : Token := H.scanner.token i

theorem stop_le_last : H.stop ≤ H.last := by
  rcases H.beyond with h | h <;> omega

theorem last_le : H.last ≤ H.stop + 1 := by
  rcases H.beyond with h | h <;> omega

theorem kind_ne_endOfFile (hi : i < H.stop) : (H.token i).kind ≠ .endOfFile := fun h =>
  H.before i hi ((H.scanner.reads_token i).ended h).1

theorem lt_stop_of_isFirm (hi : i ≤ H.last) (h : (H.token i).kind.IsFirm) : i < H.stop := by
  by_contra hge
  rcases H.beyond with ⟨hlast, hend⟩ | ⟨-, hstuck⟩
  · obtain rfl : i = H.stop := by omega
    exact h.1 hend
  · exact h.2 (hstuck i (by omega)).1

theorem lt_stop_of_text (hi : i ≤ H.last) (h : (H.token i).text ≠ []) : i < H.stop := by
  by_contra hge
  rcases H.beyond with ⟨hlast, hend⟩ | ⟨-, hstuck⟩
  · obtain rfl : i = H.stop := by omega
    exact h ((H.scanner.reads_token _).ended hend).1
  · exact h (hstuck i (by omega)).2

theorem lt_last (hi : i ≤ H.stop) (h : (H.token i).kind ≠ .endOfFile) : i < H.last := by
  rcases H.beyond with ⟨hlast, hend⟩ | ⟨hlast, -⟩
  · have : i ≠ H.stop := by
      rintro rfl
      exact h hend
    omega
  · omega

theorem succ_eq (h : (H.token i).kind ≠ .endOfFile) : H.scanner.succ i = i + 1 := if_neg h

theorem succ_endOfFile (h : (H.token i).kind = .endOfFile) : H.scanner.succ i = i := if_pos h

/-- Where a parser has passed an empty identifier, the next one stands on the same line. -/
theorem token_of_stop_lt (hi : i ≤ H.last) (hlt : H.stop < i) :
    (H.token i).kind = .identifier ∧ (H.token i).newlineBefore = false := by
  rcases H.beyond with ⟨hlast, -⟩ | ⟨hlast, hstuck⟩
  · omega
  · obtain rfl : i = H.stop + 1 := by omega
    exact ⟨(hstuck _ (by omega)).1, H.unbroken⟩

/-- The horizon of a source text is no further than the text is long. An empty identifier lies
behind it. -/
theorem exists_ofSource (source : String) : ∃ H : Horizon, H.scanner = .ofSource source ∧
    H.size = source.utf8ByteSize ∧ H.stop ≤ source.utf8ByteSize ∧
    ∀ k, ((Scanner.ofSource source).token k).isStuck → H.stop ≤ k ∧ H.stop < H.last := by
  classical
  generalize hs : Scanner.ofSource source = s
  have hlength : s.rest.length ≤ source.utf8ByteSize := by
    rw [← hs, ← width_toList]
    exact length_le_width _
  have hex : ∃ n, (s.token n).text = [] := by
    by_contra hnone
    push Not at hnone
    have := Scanner.add_length_le (n := s.rest.length + 1) fun k _ => hnone k
    omega
  -- the first token without text
  obtain ⟨n, hn, hbefore⟩ : ∃ n, (s.token n).text = [] ∧ ∀ k < n, (s.token k).text ≠ [] :=
    ⟨Nat.find hex, Nat.find_spec hex, fun k hk => Nat.find_min hex hk⟩
  have hle := Scanner.add_length_le hbefore
  obtain ⟨hkind, hunbroken⟩ := Scanner.halts_of_text_eq_nil hn
  have hstuck : ∀ k, (s.token k).isStuck → (s.token k).kind ≠ .endOfFile ∧ n ≤ k := by
    intro k hk
    simp only [Token.isStuck, Bool.and_eq_true, bne_iff_ne, beq_iff_eq] at hk
    refine ⟨hk.1, not_lt.1 fun hlt => hbefore k hlt (width_eq_zero.1 ?_)⟩
    have := (s.reads_token k).stop
    omega
  rcases hkind with hend | hidentifier
  · refine ⟨⟨s, source.utf8ByteSize, n, n, hbefore, .inl ⟨rfl, hend⟩, hunbroken⟩, rfl, rfl,
      by dsimp only; omega, fun k hk => absurd ?_ (hstuck k hk).1⟩
    have hagain := Scanner.kind_eq_endOfFile (k := n) hend (k - n)
    rwa [Nat.add_sub_cancel' (hstuck k hk).2] at hagain
  · have hne : (s.token n).kind ≠ .endOfFile := by simp [Scanner.token, hidentifier]
    refine ⟨⟨s, source.utf8ByteSize, n, n + 1, hbefore, .inr ⟨rfl, fun k hk => ?_⟩, hunbroken⟩, rfl,
      rfl, by dsimp only; omega, fun k hk => ⟨(hstuck k hk).2, Nat.lt_succ_self n⟩⟩
    obtain ⟨hkind, htext⟩ := Scanner.token_eq_again hne hn (k - n)
    rw [Nat.add_sub_cancel' hk] at hkind htext
    exact ⟨(Scanner.halts_of_text_eq_nil htext).1.resolve_left hkind, htext⟩

end Horizon

/-! ## Parsers up to the horizon -/

/-- How a parser ends, apart from its buffer: with a value or an error, and how many tokens have
been consumed by then. -/
inductive Ending (α : Type) where
  | ok (value : α) (consumed : Nat)
  | fail (error : SyntaxError) (consumed : Nat)

namespace Horizon

/-- The buffer stands on token `i`. It allows enough rounds to reach the horizon, and has read only
a few tokens beyond. -/
structure Holds (H : Horizon) (i : Nat) (b : Buffer) : Prop where
  stands : b.Stands H.scanner i
  size : b.size = H.size
  rounds : H.last < b.rounds
  seen : b.seen.size ≤ H.last + 4

/-- From token `i` the parser gives `a` and stops at token `j`. -/
def Moves {α : Type} (H : Horizon) (i j : Nat) (p : Parser α) (a : α) : Prop :=
  ∀ b, H.Holds i b → ∃ b', p b = .ok a b' ∧ H.Holds j b'

end Horizon

theorem Buffer.size_seen_look_le (b : Buffer) :
    b.look.2.seen.size ≤ max b.seen.size (b.cursor + 1) := by
  unfold look
  split
  · exact le_max_left _ _
  · rename_i hnone
    have := Array.getElem?_eq_none_iff.1 hnone
    simp only [Array.size_push]
    omega

namespace Horizon

variable {α β : Type} {H : Horizon} {i j k : Nat}

theorem Holds.look {b : Buffer} (h : H.Holds i b) (hi : i ≤ H.last + 3) :
    b.look.1 = H.token i ∧ H.Holds i b.look.2 := by
  obtain ⟨htoken, hstands, -⟩ := h.stands.look
  have hsize := b.size_seen_look_le
  have hcursor := h.stands.cursor
  have hseen := h.seen
  have hrounds : b.look.2.rounds = b.rounds := congrArg Prod.fst b.limits_look
  have hbytes : b.look.2.size = b.size := congrArg Prod.snd b.limits_look
  exact ⟨htoken, hstands, hbytes.trans h.size, hrounds ▸ h.rounds, by omega⟩

theorem Holds.consume {b : Buffer} (h : H.Holds i b) (hi : i ≤ H.last + 3) :
    b.consume.1 = H.token i ∧ H.Holds (H.scanner.succ i) b.consume.2 := by
  obtain ⟨htoken, hstands, -⟩ := h.stands.consume
  have hrounds : b.consume.2.rounds = b.rounds := congrArg Prod.fst b.limits_consume
  have hbytes : b.consume.2.size = b.size := congrArg Prod.snd b.limits_consume
  refine ⟨htoken, hstands, hbytes.trans h.size, hrounds ▸ h.rounds, ?_⟩
  rw [b.seen_consume]
  exact (h.look hi).2.seen

namespace Moves

theorem pure (a : α) : H.Moves i i (Pure.pure a) a := fun b hb => ⟨b, rfl, hb⟩

theorem bind {p : Parser α} {f : α → Parser β} {a : α} {x : β} (hp : H.Moves i j p a)
    (hf : H.Moves j k (f a) x) : H.Moves i k (p >>= f) x := by
  intro b hb
  obtain ⟨b', hp, hb'⟩ := hp b hb
  obtain ⟨b'', hf, hb''⟩ := hf b' hb'
  refine ⟨b'', ?_, hb''⟩
  change Parser.andThen p f b = _
  rw [Parser.andThen, hp]
  exact hf

theorem peek (hi : i ≤ H.last + 3) : H.Moves i i Parser.peek (H.token i) := fun b hb =>
  ⟨b.look.2, congrArg (Reply.ok · _) (hb.look hi).1, (hb.look hi).2⟩

theorem consume (hi : i ≤ H.last + 3) :
    H.Moves i (H.scanner.succ i) Parser.consume (H.token i) := fun b hb =>
  ⟨b.consume.2, congrArg (Reply.ok · _) (hb.consume hi).1, (hb.consume hi).2⟩

theorem checkpoint : H.Moves i i Parser.checkpoint i := fun b hb =>
  ⟨b, congrArg (Reply.ok · _) hb.stands.cursor, hb⟩

theorem since (h : j < i) : H.Moves i i (Parser.since j) (H.scanner.spanOf j i) := fun b hb =>
  ⟨b, congrArg (Reply.ok · _) (hb.stands.since h), hb⟩

theorem sourceSpan : H.Moves i i Parser.sourceSpan ⟨0, H.size⟩ := fun b hb =>
  ⟨b, congrArg (fun size => Reply.ok (Span.mk 0 size) b) hb.size, hb⟩

theorem lookahead {p : Parser α} {a : α} (hp : H.Moves i j p a) (hij : i ≤ j) :
    H.Moves i i (Parser.lookahead p) a := by
  intro b hb
  obtain ⟨b', hp, hb'⟩ := hp b hb
  refine ⟨{ b' with cursor := i }, ?_, ⟨hb'.stands.moved ?_, hb'.size, hb'.rounds, hb'.seen⟩⟩
  · rw [Parser.lookahead, hp, hb.stands.cursor]
  · exact hij.trans hb'.stands.reached

theorem succ_le (s : Scanner) (i : Nat) : i ≤ s.succ i ∧ s.succ i ≤ i + 1 := by
  unfold Scanner.succ
  split <;> omega

theorem peek2 (hi : i ≤ H.last) :
    H.Moves i i Parser.peek2 (H.token i, H.token (H.scanner.succ i)) := by
  have h₁ := succ_le H.scanner i
  have h₂ := succ_le H.scanner (H.scanner.succ i)
  exact lookahead (.bind (.consume (by omega)) (.bind (.consume (by omega)) (.pure _))) (by omega)

theorem peek3 (hi : i ≤ H.last) : H.Moves i i Parser.peek3
    (H.token i, H.token (H.scanner.succ i), H.token (H.scanner.succ (H.scanner.succ i))) := by
  have h₁ := succ_le H.scanner i
  have h₂ := succ_le H.scanner (H.scanner.succ i)
  have h₃ := succ_le H.scanner (H.scanner.succ (H.scanner.succ i))
  exact lookahead (.bind (.consume (by omega)) (.bind (.consume (by omega))
    (.bind (.consume (by omega)) (.pure _)))) (by omega)

theorem peek4 (hi : i ≤ H.last) : H.Moves i i Parser.peek4
    (H.token i, H.token (H.scanner.succ i), H.token (H.scanner.succ (H.scanner.succ i)),
      H.token (H.scanner.succ (H.scanner.succ (H.scanner.succ i)))) := by
  have h₁ := succ_le H.scanner i
  have h₂ := succ_le H.scanner (H.scanner.succ i)
  have h₃ := succ_le H.scanner (H.scanner.succ (H.scanner.succ i))
  have h₄ := succ_le H.scanner (H.scanner.succ (H.scanner.succ (H.scanner.succ i)))
  exact lookahead (.bind (.consume (by omega)) (.bind (.consume (by omega))
    (.bind (.consume (by omega)) (.bind (.consume (by omega)) (.pure _))))) (by omega)

end Moves

/-- An error about tokens of the stream. -/
structure Sound (H : Horizon) (e : SyntaxError) : Prop where
  genuine : e ≠ Parser.spent
  span : ∃ a b, a < b ∧ e.span = H.scanner.spanOf a b

/-- An ending with a value and a place that are in `P`, or with a sound error. A parser may consume
one token more before it fails. -/
def Meets (H : Horizon) (P : α → Nat → Prop) : Ending α → Prop
  | .ok a j => P a j
  | .fail e j => H.Sound e ∧ j ≤ H.last + 1

/-- The reply ends this way. -/
inductive Shows (H : Horizon) : Ending α → Reply α → Prop
  | ok {a j b} : H.Holds j b → Shows H (.ok a j) (.ok a b)
  | fail {e j b} : H.Holds j b → Shows H (.fail e j) (.fail e b)

/-- From token `i` on the parser ends in one way, whatever the buffer: with a sound error, or with a
value and at a token that are in `P`. -/
def Halts (H : Horizon) (i : Nat) (p : Parser α) (P : α → Nat → Prop) : Prop :=
  ∃ o : Ending α, H.Meets P o ∧ ∀ b, H.Holds i b → H.Shows o (p b)

theorem sound_error (H : Horizon) (i : Nat) (cause : Cause) :
    H.Sound ((H.token i).error cause) where
  genuine h := by cases congrArg SyntaxError.actual h
  span := ⟨i, i + 1, Nat.lt_succ_self i, rfl⟩

theorem sound_unexpected (H : Horizon) (i : Nat) (cause : Cause) :
    H.Sound ((H.token i).unexpected cause) := H.sound_error i _

/-- Behind a parser that stops at token `j`, what comes next shows how both end. -/
theorem Shows.andThen {p : Parser α} {f : α → Parser β} {a : α} {b : Buffer} {o : Ending β}
    (hp : H.Shows (.ok a j) (p b)) (hf : ∀ b, H.Holds j b → H.Shows o (f a b)) :
    H.Shows o (Parser.andThen p f b) := by
  unfold Parser.andThen
  generalize p b = r at hp ⊢
  cases hp with
  | ok hb' => exact hf _ hb'

theorem Shows.andThen_fail {p : Parser α} {f : α → Parser β} {e : SyntaxError} {b : Buffer}
    (hp : H.Shows (.fail e j) (p b)) : H.Shows (.fail e j) (Parser.andThen p f b) := by
  unfold Parser.andThen
  generalize p b = r at hp ⊢
  cases hp with
  | fail hb' => exact .fail hb'

namespace Halts

variable {P : α → Nat → Prop} {Q : β → Nat → Prop}

theorem pure {a : α} (h : P a i) : H.Halts i (Pure.pure a) P := ⟨.ok a i, h, fun _ hb => .ok hb⟩

theorem fail {e : SyntaxError} (he : H.Sound e) (hi : i ≤ H.last + 1) :
    H.Halts i (Parser.failWith e) P := ⟨.fail e i, ⟨he, hi⟩, fun _ hb => .fail hb⟩

theorem fail_bind {e : SyntaxError} {f : α → Parser β} (he : H.Sound e) (hi : i ≤ H.last + 1) :
    H.Halts i (Parser.failWith e >>= f) Q := ⟨.fail e i, ⟨he, hi⟩, fun _ hb => .fail hb⟩

theorem bind {p : Parser α} {f : α → Parser β} (hp : H.Halts i p P)
    (hf : ∀ a j, P a j → H.Halts j (f a) Q) : H.Halts i (p >>= f) Q := by
  obtain ⟨o, ho, hp⟩ := hp
  cases o with
  | ok a j =>
    obtain ⟨o', ho', hf⟩ := hf a j ho
    exact ⟨o', ho', fun b hb => (hp b hb).andThen hf⟩
  | fail e j => exact ⟨.fail e j, ho, fun b hb => (hp b hb).andThen_fail⟩

theorem mono {p : Parser α} {P' : α → Nat → Prop} (hp : H.Halts i p P)
    (h : ∀ a j, P a j → P' a j) : H.Halts i p P' := by
  obtain ⟨o, ho, hp⟩ := hp
  refine ⟨o, ?_, hp⟩
  cases o with
  | ok a j => exact h a j ho
  | fail e j => exact ho

/-- Behind a parser whose moves are known. -/
theorem behind {p : Parser α} {f : α → Parser β} {a : α} (hp : H.Moves i j p a)
    (hf : H.Halts j (f a) Q) : H.Halts i (p >>= f) Q := by
  obtain ⟨o, ho, hf⟩ := hf
  refine ⟨o, ho, fun b hb => ?_⟩
  obtain ⟨b', hp, hb'⟩ := hp b hb
  exact Shows.andThen (hp ▸ .ok hb') hf

theorem ite {cond : Prop} [Decidable cond] {p q : Parser α} (hp : cond → H.Halts i p P)
    (hq : ¬ cond → H.Halts i q P) : H.Halts i (if cond then p else q) P := by
  by_cases hcond : cond
  · rw [if_pos hcond]
    exact hp hcond
  · rw [if_neg hcond]
    exact hq hcond

/-- A token that cannot be the end of the text is consumed. -/
theorem consume_bind {f : Token → Parser β} (hi : i ≤ H.last)
    (hkind : (H.token i).kind ≠ .endOfFile) (h : H.Halts (i + 1) (f (H.token i)) Q) : H.Halts i (Parser.consume >>= f) Q := by
  refine behind (.consume (by omega)) ?_
  rw [succ_eq hkind]
  exact h

theorem require_bind {kind : Kind} {f : Token → Parser β} (hi : i ≤ H.last) (hkind : kind.IsFirm)
    (h : i < H.stop → H.Halts (i + 1) (f (H.token i)) Q) :
    H.Halts i (Parser.require kind >>= f) Q := by
  unfold Parser.require
  rw [bind_assoc]
  by_cases heq : (H.token i).kind = kind
  · refine consume_bind hi (heq ▸ hkind.1) ?_
    rw [if_pos (by simpa using heq), pure_bind]
    exact h (lt_stop_of_isFirm hi (heq ▸ hkind))
  · refine behind (.consume (by omega)) ?_
    rw [if_neg (by simpa using heq)]
    have := Moves.succ_le H.scanner i
    exact fail_bind (H.sound_unexpected i _) (by omega)

theorem requireWhere_bind {p : Kind → Bool} {what : String} {f : Token → Parser β}
    (hi : i ≤ H.stop) (hp : p .endOfFile = false)
    (h : i < H.last → H.Halts (i + 1) (f (H.token i)) Q) :
    H.Halts i (Parser.requireWhere p what >>= f) Q := by
  have hlast := H.stop_le_last
  unfold Parser.requireWhere
  rw [bind_assoc]
  by_cases htest : p (H.token i).kind
  · have hkind : (H.token i).kind ≠ .endOfFile := by
      intro heq
      rw [heq, hp] at htest
      cases htest
    refine consume_bind (by omega) hkind ?_
    rw [if_pos htest, pure_bind]
    exact h (lt_last hi hkind)
  · refine behind (.consume (by omega)) ?_
    rw [if_neg htest]
    have := Moves.succ_le H.scanner i
    exact fail_bind (H.sound_unexpected i _) (by omega)

theorem accept_bind {kind : Kind} {f : Bool → Parser β} (hi : i ≤ H.last) (hkind : kind.IsFirm)
    (h : i < H.stop → H.Halts (i + 1) (f true) Q) (h' : H.Halts i (f false) Q) :
    H.Halts i (Parser.accept kind >>= f) Q := by
  unfold Parser.accept Parser.tryKind
  simp only [bind_assoc]
  refine behind (.peek (by omega)) ?_
  by_cases heq : (H.token i).kind = kind
  · rw [if_pos (by simpa using heq)]
    simp only [bind_assoc, pure_bind]
    refine consume_bind hi (heq ▸ hkind.1) ?_
    exact h (lt_stop_of_isFirm hi (heq ▸ hkind))
  · rw [if_neg (by simpa using heq)]
    simp only [pure_bind]
    exact h'

theorem spanned {p : Parser (Span → α)}
    (hp : H.Halts i p fun make j => i < j ∧ P (make (H.scanner.spanOf i j)) j) :
    H.Halts i (Parser.spanned p) P := by
  refine behind .checkpoint (hp.bind fun make j h => ?_)
  exact behind (.since h.1) (pure h.2)

/-- A repetition goes on only with a token consumed, so it comes to an end. -/
theorem repeatFrom {I : α → Nat → Prop} {step : α → Parser (ForInStep α)}
    (hI : ∀ a i, I a i → i ≤ H.last)
    (hstep : ∀ a i, I a i → H.Halts i (step a) fun r j => match r with
      | .yield a => i < j ∧ I a j
      | .done a => P a j) {a : α} (h : I a i) : H.Halts i (Parser.repeatFrom a step) P := by
  suffices hrounds : ∃ o : Ending α, H.Meets P o ∧ ∀ n, H.last < n + i → ∀ b, H.Holds i b →
      H.Shows o (Parser.repeatAtMost step n a b) by
    obtain ⟨o, ho, hrun⟩ := hrounds
    exact ⟨o, ho, fun b hb => hrun b.rounds (by have := hb.rounds; omega) b hb⟩
  -- the induction is on the tokens left up to the horizon
  induction hleft : H.last - i using Nat.strong_induction_on generalizing a i with
  | _ left ih =>
  have hi := hI a i h
  obtain ⟨o, ho, hrun⟩ := hstep a i h
  have hround : ∀ n, H.last < n + i → ∃ m, n = m + 1 := fun n hn => ⟨n - 1, by omega⟩
  cases o with
  | fail e j =>
    refine ⟨.fail e j, ho, fun n hn b hb => ?_⟩
    obtain ⟨m, rfl⟩ := hround n hn
    exact (hrun b hb).andThen_fail
  | ok r j =>
    cases r with
    | done x =>
      refine ⟨.ok x j, ho, fun n hn b hb => ?_⟩
      obtain ⟨m, rfl⟩ := hround n hn
      exact (hrun b hb).andThen fun _ hb' => .ok hb'
    | yield x =>
      obtain ⟨hij, hx⟩ : i < j ∧ I x j := ho
      have hj := hI x j hx
      obtain ⟨o', ho', hrest⟩ := ih (H.last - j) (by omega) hx rfl
      refine ⟨o', ho', fun n hn b hb => ?_⟩
      obtain ⟨m, rfl⟩ := hround n hn
      exact (hrun b hb).andThen fun b' hb' => hrest m (by omega) b' hb'

end Halts

/-! ## Composing parsers -/

/-- From any token up to `a` the parser halts, and stops at token `b` at the furthest. -/
def Steps (H : Horizon) (a b : Nat) (p : Parser α) : Prop :=
  ∀ i ≤ a, H.Halts i p fun _ j => i ≤ j ∧ j ≤ b

/-- From any token up to `a` the parser halts, and stops behind it and at token `b` at the
furthest. -/
def Advances (H : Horizon) (a b : Nat) (p : Parser α) : Prop :=
  ∀ i ≤ a, H.Halts i p fun _ j => i < j ∧ j ≤ b

/-- The order of the places `stop` and `last`, for instance search. -/
class Below (H : Horizon) (a b : Nat) : Prop where
  le : a ≤ b

instance (a : Nat) : H.Below a a := ⟨le_rfl⟩
instance : H.Below H.stop H.last := ⟨H.stop_le_last⟩

section

variable {a b c d : Nat} {p q : Parser α} {f : α → Parser β} {kind : Kind}

theorem Advances.steps (h : H.Advances a b p) : H.Steps a b p := fun i hi =>
  (h i hi).mono fun _ _ hj => ⟨hj.1.le, hj.2⟩

theorem Steps.loosen [h : H.Below b c] (hp : H.Steps a b p) : H.Steps a c p := fun i hi =>
  (hp i hi).mono fun _ _ hj => ⟨hj.1, hj.2.trans h.le⟩

theorem Advances.loosen [h : H.Below b c] (hp : H.Advances a b p) : H.Advances a c p :=
  fun i hi => (hp i hi).mono fun _ _ hj => ⟨hj.1, hj.2.trans h.le⟩

theorem steps_pure (x : α) : H.Steps a a (pure x) := fun _ hi => .pure ⟨le_rfl, hi⟩

theorem Steps.bind [h : H.Below b c] (hp : H.Steps a b p) (hf : ∀ x, H.Steps c d (f x)) :
    H.Steps a d (p >>= f) := by
  intro i hi
  refine (hp i hi).bind fun x j hj => (hf x j (hj.2.trans h.le)).mono fun _ k hk => ?_
  omega

theorem Advances.bind [h : H.Below b c] (hp : H.Advances a b p) (hf : ∀ x, H.Steps c d (f x)) :
    H.Advances a d (p >>= f) := by
  intro i hi
  refine (hp i hi).bind fun x j hj => (hf x j (hj.2.trans h.le)).mono fun _ k hk => ?_
  omega

theorem Steps.bind_advances [h : H.Below b c] (hp : H.Steps a b p)
    (hf : ∀ x, H.Advances c d (f x)) : H.Advances a d (p >>= f) := by
  intro i hi
  refine (hp i hi).bind fun x j hj => (hf x j (hj.2.trans h.le)).mono fun _ k hk => ?_
  omega

theorem Advances.ite {cond : Prop} [Decidable cond] (hp : H.Advances a b p)
    (hq : H.Advances a b q) : H.Advances a b (if cond then p else q) := fun i hi =>
  .ite (fun _ => hp i hi) fun _ => hq i hi

theorem advances_spanned {p : Parser (Span → α)} (hp : H.Advances a b p) :
    H.Advances a b (Parser.spanned p) := fun i hi =>
  .spanned ((hp i hi).mono fun _ _ hj => ⟨hj.1, hj⟩)

theorem advances_require (hkind : kind.IsFirm) :
    H.Advances H.last H.stop (Parser.require kind) := by
  intro i hi
  rw [← bind_pure (Parser.require kind)]
  exact .require_bind hi hkind fun hlt => .pure ⟨Nat.lt_succ_self i, hlt⟩

theorem advances_requireWhere {test : Kind → Bool} {what : String}
    (htest : test .endOfFile = false) :
    H.Advances H.stop H.last (Parser.requireWhere test what) := by
  intro i hi
  rw [← bind_pure (Parser.requireWhere test what)]
  exact .requireWhere_bind hi htest fun hlt => .pure ⟨Nat.lt_succ_self i, hlt⟩

theorem steps_accept [hstop : H.Below H.stop a] [hlast : H.Below a H.last] (hkind : kind.IsFirm) :
    H.Steps a a (Parser.accept kind) := by
  intro i hi
  have hstop := hstop.le
  rw [← bind_pure (Parser.accept kind)]
  exact .accept_bind (hi.trans hlast.le) hkind (fun hlt => .pure ⟨by omega, by omega⟩)
    (.pure ⟨le_rfl, hi⟩)

theorem steps_after (hkind : kind.IsFirm) (hp : H.Steps H.stop H.last p) :
    H.Steps H.last H.last (Parser.after kind p) := by
  intro i hi
  refine .accept_bind hi hkind (fun hlt => ?_) (.pure ⟨le_rfl, hi⟩)
  exact (hp (i + 1) hlt).bind fun x j hj => .pure ⟨by omega, hj.2⟩

/-- The rounds of a repetition stay between the tokens `b` and `c`. -/
theorem steps_repeatFrom {step : α → Parser (ForInStep α)} [hb : H.Below b H.last]
    (hstep : ∀ x, ∀ i ≤ b, H.Halts i (step x) fun r j => match r with
      | .yield _ => i < j ∧ j ≤ b
      | .done _ => i ≤ j ∧ j ≤ c) (x : α) : H.Steps b c (Parser.repeatFrom x step) := by
  intro i hi
  refine .repeatFrom (I := fun _ j => i ≤ j ∧ j ≤ b) (fun _ j hj => hj.2.trans hb.le)
    (fun x j hj => (hstep x j hj.2).mono fun r k hk => ?_) ⟨le_rfl, hi⟩
  cases r with
  | yield x =>
    obtain ⟨hjk, hk⟩ : j < k ∧ k ≤ b := hk
    exact ⟨hjk, by omega, hk⟩
  | done x =>
    obtain ⟨hjk, hk⟩ : j ≤ k ∧ k ≤ c := hk
    exact ⟨by omega, hk⟩

/-- What is collected consumes a token each time. -/
theorem steps_collect {item : Parser (Option α)} [H.Below b H.last]
    (hitem : ∀ i ≤ b, H.Halts i item fun x j => i ≤ j ∧ j ≤ b ∧ (x.isSome → i < j)) :
    H.Steps b b (Parser.collect item) := by
  refine Steps.bind (steps_repeatFrom (c := b) (fun items i hi => ?_) []) fun _ => steps_pure _
  refine (hitem i hi).bind fun x j hj => ?_
  cases x with
  | none => exact .pure ⟨hj.1, hj.2.1⟩
  | some x => exact .pure ⟨hj.2.2 rfl, hj.2.1⟩

theorem steps_collect_after (hkind : kind.IsFirm) (hp : H.Steps H.stop H.last p) :
    H.Steps H.last H.last (Parser.collect (Parser.after kind p)) := by
  refine steps_collect fun i hi => .accept_bind hi hkind (fun hlt => ?_) ?_
  · exact (hp (i + 1) hlt).bind fun x j hj => .pure ⟨by omega, hj.2, fun _ => by omega⟩
  · exact .pure ⟨le_rfl, hi, by simp⟩

theorem advances_separated (hkind : kind.IsFirm) (hp : H.Advances H.stop H.last p) :
    H.Advances H.stop H.last (Parser.separated kind p) :=
  hp.bind fun _ => (steps_collect_after hkind hp.steps).bind fun _ => steps_pure _

theorem steps_commaList (hkind : kind.IsFirm) (hp : H.Advances H.stop H.last p) :
    H.Steps H.stop H.stop (Parser.commaList kind p) := by
  have hlast := H.stop_le_last
  refine Steps.bind (steps_repeatFrom (c := H.stop) (fun items i hi => ?_) []) fun _ => steps_pure _
  refine .accept_bind (by omega) hkind (fun hlt => .pure ⟨by omega, hlt⟩) ?_
  refine (hp i hi).bind fun x j hj => ?_
  refine .accept_bind hj.2 (by decide) (fun hlt => .pure ⟨by omega, hlt⟩) ?_
  exact .require_bind hj.2 hkind fun hlt => .pure ⟨by omega, hlt⟩

end

end Horizon

end Ambient
