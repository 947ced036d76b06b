import Ambient.Proofs.LockstepStatements
import Ambient.Proofs.Spelling
import Ambient.Proofs.Tracking
/-!
# Parsers over words

A buffer faces a list of words if these are the tokens from its cursor to the end of the text.
`Parser.Leaves ws rest p P` says that `p`, where the words `ws` are faced, gives a value with `P`
and leaves `rest`. There is a rule for each combinator; a loop that takes up words in every round
has rounds enough (`Parser.Loops`).
-/

namespace Ambient

/-! ## Words in front of a buffer -/

/-- The kind of the first word, or of the end. -/
def headKind : List Word → Kind
  | [] => .endOfFile
  | w :: _ => w.kind

/-- The words are the tokens from the cursor on, and there are rounds enough for all of them. -/
def Buffer.Faces (ws : List Word) (b : Buffer) : Prop :=
  ∃ s i, b.Stands s i ∧ s.Spells i ws ∧ ws.length < b.rounds

namespace Scanner.Spells

variable {s : Scanner} {i : Nat} {ws : List Word}

theorem kind (h : s.Spells i ws) : (s.token i).kind = headKind ws := by
  cases ws with
  | nil => exact h
  | cons w ws => exact h.1.kind

theorem succ (h : s.Spells i ws) : s.Spells (s.succ i) ws.tail := by
  unfold Scanner.succ
  cases ws with
  | nil =>
    have hend : (s.token i).kind = .endOfFile := h
    rw [if_pos hend]
    exact h
  | cons w ws =>
    rw [if_neg (h.1.kind ▸ h.1.notEnd)]
    exact h.2

theorem endsAt (h : s.Spells i ws) (hbefore : ∀ k < i, (s.token k).kind ≠ .endOfFile) :
    s.EndsAt (i + ws.length) := by
  induction ws generalizing i with
  | nil => exact ⟨h, hbefore⟩
  | cons w ws ih =>
    rw [List.length_cons, ← Nat.add_assoc, Nat.add_right_comm]
    refine ih h.2 fun k hk => ?_
    rcases Nat.lt_succ_iff_lt_or_eq.1 hk with hk | rfl
    · exact hbefore k hk
    · exact h.1.kind ▸ h.1.notEnd

end Scanner.Spells

theorem Buffer.faces_ofSource {ws : List Word} (hws : ∀ w ∈ ws, w.Spelled) :
    (Buffer.ofSource (String.ofList (spaced ws))).Faces ws := by
  have hspells := spells_spaced hws
  have hends := hspells.endsAt fun k hk => absurd hk (Nat.not_lt_zero k)
  rw [Nat.zero_add] at hends
  exact ⟨_, 0, (tracks_ofSource _).toStands, hspells, (Buffer.at_ofSource hends).rounds⟩

/-! ## Parsers -/

/-- Where the parser faces `ws` it gives a value with `P` and leaves `rest`. -/
def Parser.Leaves {α : Type} (ws rest : List Word) (p : Parser α) (P : α → Prop) : Prop :=
  ∀ b : Buffer, b.Faces ws → ∃ a b', p b = .ok a b' ∧ b'.Faces rest ∧ P a

namespace Parser.Leaves

variable {α β : Type} {ws us rest : List Word} {P : α → Prop} {Q : β → Prop}

theorem of_goes {p : Parser α} (hlength : rest.length ≤ ws.length)
    (h : ∀ s i, s.Spells i ws → ∃ j a, Goes s i j p a ∧ s.Spells j rest ∧ P a) :
    Leaves ws rest p P := by
  rintro b ⟨s, i, hstands, hspells, hrounds⟩
  obtain ⟨j, a, hgoes, hrest, hP⟩ := h s i hspells
  obtain ⟨b', hrun, hleads⟩ := hgoes b hstands
  have hsame : b'.rounds = b.rounds := congrArg Prod.fst hleads.limits
  exact ⟨a, b', hrun, ⟨s, j, hleads.stands, hrest, by omega⟩, hP⟩

theorem pure {a : α} (h : P a) : Leaves ws ws (Pure.pure a) P := fun b hb => ⟨a, b, rfl, hb, h⟩

theorem bind {p : Parser α} {f : α → Parser β} (hp : Leaves ws us p P)
    (hf : ∀ a, P a → Leaves us rest (f a) Q) : Leaves ws rest (p >>= f) Q := by
  intro b hb
  obtain ⟨a, b', hp, hb', ha⟩ := hp b hb
  obtain ⟨x, b'', hf, hb'', hx⟩ := hf a ha b' hb'
  exact ⟨x, b'', (bind_of_ok hp f).trans hf, hb'', hx⟩

theorem bind_pure {p : Parser α} {f : α → β} (hp : Leaves ws rest p P) (hf : ∀ a, P a → Q (f a)) :
    Leaves ws rest (p >>= fun a => Pure.pure (f a)) Q :=
  bind hp fun a ha => pure (hf a ha)

theorem mono {p : Parser α} {P' : α → Prop} (hp : Leaves ws rest p P) (h : ∀ a, P a → P' a) :
    Leaves ws rest p P' := by
  intro b hb
  obtain ⟨a, b', hp, hb', ha⟩ := hp b hb
  exact ⟨a, b', hp, hb', h a ha⟩

/-! ### Looking and consuming -/

theorem consume (w : Word) : Leaves (w :: ws) ws Parser.consume (Token.Is w) := by
  refine of_goes (by simp) fun s i h => ⟨_, _, .consume, h.succ, h.1⟩

theorem peek_bind {f : Token → Parser β}
    (hf : ∀ t, t.kind = headKind ws → (t.kind ≠ .endOfFile → t.newlineBefore = false) →
      Leaves ws rest (f t) Q) : Leaves ws rest (peek >>= f) Q := by
  have hpeek : Leaves ws ws peek fun t =>
      t.kind = headKind ws ∧ (t.kind ≠ .endOfFile → t.newlineBefore = false) := by
    refine of_goes le_rfl fun s i h => ⟨_, _, .peek, h, h.kind, fun hend => ?_⟩
    cases ws with
    | nil => exact absurd h hend
    | cons w ws => exact h.1.newline
  exact bind hpeek fun t ht => hf t ht.1 ht.2

theorem peekKind_bind {f : Kind → Parser β} (hf : Leaves ws rest (f (headKind ws)) Q) :
    Leaves ws rest (peekKind >>= f) Q := by
  refine bind (P := (· = headKind ws)) (peek_bind fun t ht _ => pure ht) fun k hk => ?_
  rw [hk]
  exact hf

theorem peek2_bind {f : Token × Token → Parser β}
    (hf : ∀ a b, a.kind = headKind ws → b.kind = headKind ws.tail → Leaves ws rest (f (a, b)) Q) :
    Leaves ws rest (peek2 >>= f) Q := by
  have hpeek : Leaves ws ws peek2 fun t => t.1.kind = headKind ws ∧ t.2.kind = headKind ws.tail :=
    of_goes le_rfl fun s i h => ⟨_, _, .peek2, h, h.kind, h.succ.kind⟩
  exact bind hpeek fun t ht => hf t.1 t.2 ht.1 ht.2

theorem peek3_bind {f : Token × Token × Token → Parser β}
    (hf : ∀ a b c, a.kind = headKind ws → b.kind = headKind ws.tail →
      c.kind = headKind ws.tail.tail → Leaves ws rest (f (a, b, c)) Q) :
    Leaves ws rest (peek3 >>= f) Q := by
  have hpeek : Leaves ws ws peek3 fun t => t.1.kind = headKind ws ∧
      t.2.1.kind = headKind ws.tail ∧ t.2.2.kind = headKind ws.tail.tail :=
    of_goes le_rfl fun s i h => ⟨_, _, .peek3, h, h.kind, h.succ.kind, h.succ.succ.kind⟩
  exact bind hpeek fun t ht => hf t.1 t.2.1 t.2.2 ht.1 ht.2.1 ht.2.2

theorem checkpoint_bind {f : Nat → Parser β} (hf : ∀ start, Leaves ws rest (f start) Q) :
    Leaves ws rest (checkpoint >>= f) Q :=
  bind (P := fun _ => True) (fun b hb => ⟨b.cursor, b, rfl, hb, trivial⟩) fun start _ => hf start

theorem since_bind {start : Nat} {f : Span → Parser β} (hf : ∀ span, Leaves ws rest (f span) Q) :
    Leaves ws rest (since start >>= f) Q :=
  bind (P := fun _ => True) (fun b hb => ⟨b.since start, b, rfl, hb, trivial⟩) fun span _ => hf span

theorem require_bind {kind : Kind} {w : Word} (hkind : w.kind = kind) {f : Token → Parser β}
    (hf : ∀ t, t.Is w → Leaves ws rest (f t) Q) : Leaves (w :: ws) rest (require kind >>= f) Q := by
  refine bind (P := Token.Is w) (bind (consume w) fun t ht => ?_) hf
  rw [if_pos (by simp [ht.kind, hkind])]
  exact pure ht

/-- The end of the text is not consumed. -/
theorem require_end : Leaves [] [] (require .endOfFile) fun _ => True := by
  have hconsume : Leaves [] [] Parser.consume (·.kind = .endOfFile) :=
    of_goes le_rfl fun s i h => ⟨_, _, .consume, h.succ, h⟩
  refine bind hconsume fun t ht => ?_
  rw [if_pos (by simp [ht])]
  exact pure trivial

theorem requireWhere_bind {p : Kind → Bool} {what : String} {w : Word} (hkind : p w.kind)
    {f : Token → Parser β} (hf : ∀ t, t.Is w → Leaves ws rest (f t) Q) :
    Leaves (w :: ws) rest (requireWhere p what >>= f) Q := by
  refine bind (P := Token.Is w) (bind (consume w) fun t ht => ?_) hf
  rw [if_pos (by rw [ht.kind, hkind])]
  exact pure ht

theorem accept_of_eq {kind : Kind} {w : Word} (hkind : w.kind = kind) {f : Bool → Parser β}
    (hf : Leaves ws rest (f true) Q) : Leaves (w :: ws) rest (accept kind >>= f) Q := by
  have htry : Leaves (w :: ws) ws (tryKind kind) (· = none) := by
    refine peek_bind fun t ht _ => ?_
    rw [if_pos (by simp [ht, headKind, hkind])]
    exact bind (consume w) fun _ _ => pure rfl
  refine bind (P := (· = true)) (bind htry fun e he => pure (by rw [he]; rfl)) fun a ha => ?_
  rw [ha]
  exact hf

theorem accept_of_ne {kind : Kind} (hkind : headKind ws ≠ kind) {f : Bool → Parser β}
    (hf : Leaves ws rest (f false) Q) : Leaves ws rest (accept kind >>= f) Q := by
  have htry : Leaves ws ws (tryKind kind) (·.isSome) := by
    refine peek_bind fun t ht _ => ?_
    rw [if_neg (by simp [ht, hkind])]
    exact pure rfl
  refine bind (P := (· = false)) (bind htry fun e he => pure (by simpa using he)) fun a ha => ?_
  rw [ha]
  exact hf

/-! ### Combining -/

theorem spanned {p : Parser (Span → α)} (h : Leaves ws rest p fun make => ∀ span, P (make span)) :
    Leaves ws rest (Parser.spanned p) P :=
  checkpoint_bind fun _ => bind h fun _ hmake => since_bind fun span => pure (hmake span)

theorem after_of_eq {kind : Kind} {w : Word} (hkind : w.kind = kind) {p : Parser α}
    (hp : Leaves ws rest p P) :
    Leaves (w :: ws) rest (Parser.after kind p) fun a => ∃ x, a = some x ∧ P x :=
  accept_of_eq hkind (bind hp fun x hx => pure ⟨x, rfl, hx⟩)

theorem after_of_ne {kind : Kind} (hkind : headKind ws ≠ kind) (p : Parser α) :
    Leaves ws ws (Parser.after kind p) (· = none) :=
  accept_of_ne hkind (pure rfl)

end Parser.Leaves

/-! ## Loops -/

/-- The loop, where it faces `ws` and has more rounds than there are words, ends with a value with
`P` and leaves `rest`. -/
def Parser.Loops {α : Type} (ws rest : List Word) (step : α → Parser (ForInStep α)) (a : α)
    (P : α → Prop) : Prop :=
  ∀ n, ws.length < n → Leaves ws rest (repeatAtMost step n a) P

namespace Parser.Loops

variable {α β : Type} {ws us rest : List Word} {step : α → Parser (ForInStep α)} {a : α}
  {P Q : α → Prop}

theorem done (h : Leaves ws rest (step a) fun r => ∃ x, r = .done x ∧ P x) :
    Loops ws rest step a P := by
  intro n hn
  obtain ⟨n, rfl⟩ : ∃ m, n = m + 1 := ⟨n - 1, by omega⟩
  refine .bind h fun r hr => ?_
  obtain ⟨x, rfl, hx⟩ := hr
  exact .pure hx

theorem yield (h : Leaves ws us (step a) fun r => ∃ x, r = .yield x ∧ Q x)
    (hlength : us.length < ws.length) (hnext : ∀ x, Q x → Loops us rest step x P) :
    Loops ws rest step a P := by
  intro n hn
  obtain ⟨n, rfl⟩ : ∃ m, n = m + 1 := ⟨n - 1, by omega⟩
  refine .bind h fun r hr => ?_
  obtain ⟨x, rfl, hx⟩ := hr
  exact hnext x hx n (by omega)

theorem mono (h : Loops ws rest step a P) (hP : ∀ x, P x → Q x) : Loops ws rest step a Q :=
  fun n hn => (h n hn).mono hP

end Parser.Loops

theorem Parser.Leaves.repeatFrom {α : Type} {ws rest : List Word} {step : α → Parser (ForInStep α)}
    {a : α} {P : α → Prop} (h : Loops ws rest step a P) :
    Leaves ws rest (Parser.repeatFrom a step) P := by
  intro b hb
  obtain ⟨s, i, hstands, hspells, hrounds⟩ := hb
  exact h b.rounds hrounds b ⟨s, i, hstands, hspells, hrounds⟩

/-! ## Lists -/

namespace Parser

variable {α ι : Type} {R : ι → α → Prop}

/-- A loop that puts one value for each item in front of a list, while `left` of the items left are
the words left. -/
theorem Loops.items (left : List ι → List Word) (rest : List Word)
    {step : List α → Parser (ForInStep (List α))} {xs : List ι}
    (hyield : ∀ x ∈ xs, ∀ ys acc, Leaves (left (x :: ys)) (left ys) (step acc)
      fun r => ∃ as, r = .yield as ∧ ∃ a, R x a ∧ as = a :: acc)
    (hlength : ∀ x ys, (left ys).length < (left (x :: ys)).length)
    (hdone : ∀ acc, Leaves (left []) rest (step acc) (· = .done acc)) (acc : List α) :
    Loops (left xs) rest step acc fun r => ∃ as, List.Forall₂ R xs as ∧ r = as.reverse ++ acc := by
  induction xs generalizing acc with
  | nil => exact .done ((hdone acc).mono fun r hr => ⟨acc, hr, [], .nil, rfl⟩)
  | cons x xs ih =>
    refine .yield (hyield x (.head _) xs acc) (hlength x xs) fun as has => ?_
    obtain ⟨a, ha, rfl⟩ := has
    refine (ih (fun y hy => hyield y (.tail _ hy)) (a :: acc)).mono fun r hr => ?_
    obtain ⟨as, has, rfl⟩ := hr
    exact ⟨a :: as, .cons ha has, by simp⟩

namespace Leaves

variable {words : ι → List Word} {item : Parser α} {xs : List ι}

/-- One item, behind which there is none. -/
theorem collect_single {ws rest : List Word} {item : Parser (Option α)} {P : α → Prop}
    (hfirst : Leaves ws rest item fun r => ∃ a, r = some a ∧ P a)
    (hlength : rest.length < ws.length) (hlast : Leaves rest rest item (· = none)) :
    Leaves ws rest (collect item) fun as => ∃ a, as = [a] ∧ P a := by
  unfold collect
  refine .bind_pure (P := fun as => ∃ a, as = [a] ∧ P a) (.repeatFrom (.yield
    (Q := fun as => ∃ a, as = [a] ∧ P a) (.bind hfirst fun r hr => ?_) hlength fun as has => ?_)) ?_
  · obtain ⟨a, rfl, ha⟩ := hr
    exact .pure ⟨_, rfl, a, rfl, ha⟩
  · refine .done (.bind hlast fun r hr => ?_)
    rw [hr]
    exact .pure ⟨as, rfl, has⟩
  · rintro _ ⟨a, rfl, ha⟩
    exact ⟨a, rfl, ha⟩

theorem collect_after {sign : Kind} {rest : List Word} (hrest : headKind rest ≠ sign)
    (hitem : ∀ x ∈ xs, ∀ ys : List ι, Leaves
      (words x ++ (ys.flatMap (fun y => sign.word :: words y) ++ rest))
      (ys.flatMap (fun y => sign.word :: words y) ++ rest) item (R x)) :
    Leaves (xs.flatMap (fun x => sign.word :: words x) ++ rest) rest
      (collect (Parser.after sign item)) (List.Forall₂ R xs) := by
  unfold collect
  refine .bind_pure (.repeatFrom (.items (R := R)
    (fun ys => ys.flatMap (fun y => sign.word :: words y) ++ rest) rest (fun x hx ys acc => ?_)
    (fun x ys => ?_) (fun acc => ?_) [])) fun r hr => ?_
  · rw [List.flatMap_cons, List.cons_append, List.cons_append, List.append_assoc]
    refine .bind (after_of_eq rfl (hitem x hx ys)) fun a ha => ?_
    obtain ⟨a, rfl, ha⟩ := ha
    exact .pure ⟨_, rfl, a, ha, rfl⟩
  · simp only [List.flatMap_cons, List.length_append, List.length_cons]
    omega
  · refine .bind (after_of_ne hrest item) fun a ha => ?_
    rw [ha]
    exact .pure rfl
  · obtain ⟨as, has, rfl⟩ := hr
    simpa using has

theorem commaList {close : Kind} (hclose : close ≠ .comma)
    (hstart : ∀ x ∈ xs, ∀ rest, headKind (words x ++ rest) ≠ close)
    (hitem : ∀ x ∈ xs, ∀ rest, headKind rest ∈ [.comma, close] →
      Leaves (words x ++ rest) rest item (R x)) (rest : List Word) :
    Leaves (joinWords .comma (xs.map words) ++ close.word :: rest) rest
      (Parser.commaList close item) (List.Forall₂ R xs) := by
  unfold Parser.commaList
  refine .bind_pure (P := fun r => ∃ as, List.Forall₂ R xs as ∧ r = as.reverse ++ [])
    (.repeatFrom ?_) fun r hr => ?_
  · generalize ([] : List α) = acc
    cases xs with
    | nil => exact .done (accept_of_eq rfl (.pure ⟨acc, rfl, [], .nil, rfl⟩))
    | cons x xs =>
      rw [List.map_cons, joinWords, List.append_assoc]
      induction xs generalizing x acc with
      -- the last item, and the closing bracket with it
      | nil =>
        refine .done (accept_of_ne (hstart x (.head _) _) ?_)
        refine .bind (hitem x (.head _) _ (.tail _ (.head _))) fun a ha => ?_
        refine accept_of_ne (by exact hclose) (require_bind rfl fun _ _ => ?_)
        exact .pure ⟨a :: acc, rfl, [a], .cons ha .nil, rfl⟩
      | cons y ys ih =>
        rw [List.map_cons, List.flatMap_cons, List.cons_append, List.cons_append, List.append_assoc]
        refine .yield (Q := fun as => ∃ a, R x a ∧ as = a :: acc)
          (accept_of_ne (hstart x (.head _) _) (.bind (hitem x (.head _) _ (.head _)) fun a ha =>
            accept_of_eq rfl (.pure ⟨_, rfl, a, ha, rfl⟩))) ?_ fun as has => ?_
        · simp only [List.length_append, List.length_cons]
          omega
        · obtain ⟨a, ha, rfl⟩ := has
          refine (ih (a :: acc) y (fun z hz => hstart z (.tail _ hz))
            (fun z hz => hitem z (.tail _ hz))).mono fun r hr => ?_
          obtain ⟨as, has, rfl⟩ := hr
          exact ⟨a :: as, .cons ha has, by simp⟩
  · obtain ⟨as, has, rfl⟩ := hr
    simpa using has

end Leaves

end Parser

end Ambient
