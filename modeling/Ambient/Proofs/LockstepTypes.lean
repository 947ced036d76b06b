import Ambient.Proofs.Lockstep
/-!
# Types in lockstep

The parsers of words, literals, members and types, over two streams at once. Each of them needs the
parsers one level further down, so the levels follow by induction on the room for nesting
(`Level.reads_ofRoom`).

A list of members is the one place where the parser looks at the line break before the end of the
text: behind a last member it stands for the semicolon. Both sides fail there, since the closing
brace is missing (`Twin.runs_memberEnd_bind`).
-/

open Ambient.Parser

namespace Ambient.Twin

variable {T : Twin} {i : Nat}

theorem isProper_of_eq {kind kind' : Kind} (h : kind = kind') (hkind : IsProper kind') :
    IsProper kind := h ▸ hkind

/-! ## Words and literals -/

theorem same_token_span : Same T.left i (i + 1) (T.left.token i).span (T.right.token i).span where
  fits := .leaf (Nat.lt_succ_self i)
  erased := rfl

theorem reads_nameWithSpan : T.Reads nameWithSpan := by
  intro i
  refine .requireWhere_bind (by decide) fun _ halike => .pure ⟨Nat.lt_succ_self i, ?_⟩
  exact same_token_span.prod ⟨.nil le_rfl, halike.word⟩ le_rfl

theorem reads_name : T.Reads name := by
  intro i
  refine reads_nameWithSpan.bind fun j x x' hij hx => .pure ⟨hij, ?_⟩
  exact ⟨.nil hij.le, (Prod.ext_iff.1 hx.erased).2⟩

theorem passes_statementEnd : T.Passes statementEnd := by
  intro i
  refine .accept_bind (by decide) (fun _ => .pure ⟨.nil (by omega), rfl⟩) fun _ => ?_
  refine .peek_bind fun halike => ?_
  -- the line break before the end may differ, but the end itself ends a statement
  have hcond : ((T.left.token i).newlineBefore || (T.left.token i).kind == .braceClose
      || (T.left.token i).kind == .endOfFile)
      = ((T.right.token i).newlineBefore || (T.right.token i).kind == .braceClose
      || (T.right.token i).kind == .endOfFile) := by
    rw [← halike.kind]
    by_cases hend : (T.left.token i).kind = .endOfFile
    · simp [hend]
    · rw [halike.newline hend]
  rw [hcond]
  exact .ite (fun _ => .pure ⟨.nil le_rfl, rfl⟩) fun _ => .fail (halike.unexpected _ _)

theorem reads_stringWithSpan : T.Reads stringWithSpan := by
  intro i
  refine .require_bind (by decide) fun _ halike => ?_
  rw [← halike.text]
  split
  · exact .pure ⟨Nat.lt_succ_self i, same_token_span.prod ⟨.nil le_rfl, rfl⟩ le_rfl⟩
  · exact .fail (halike.error _ _)

theorem reads_string : T.Reads string := by
  intro i
  refine reads_stringWithSpan.bind fun j x x' hij hx => .pure ⟨hij, ?_⟩
  exact ⟨.nil hij.le, (Prod.ext_iff.1 hx.erased).2⟩

theorem reads_number : T.Reads number := by
  intro i
  refine .require_bind (by decide) fun _ halike => ?_
  rw [← halike.text]
  refine .ite (fun _ => .pure ⟨Nat.lt_succ_self i, .nil (Nat.le_succ i), halike.word⟩) fun _ => ?_
  exact .fail (halike.error _ _)

/-- The minus sign must come next. -/
theorem runs_negativeNumber (hkind : T.kind i = .hyphen) :
    T.Runs i negativeNumber negativeNumber fun j a a' => i < j ∧ Same T.left i j a a' := by
  refine .consume_bind (by rw [hkind]; decide) fun _ => ?_
  refine reads_number.bind fun j raw raw' hij hraw => .pure ⟨by omega, .nil (by omega), ?_⟩
  exact congrArg ("-" ++ ·) hraw.erased

theorem reads_tooDeep {α : Type} [Located α] : T.Reads (tooDeep : Parser α) :=
  fun _ => .peek_bind fun halike => .fail (halike.error _ _)

theorem reads_entityName : T.Reads entityName := by
  intro i
  refine reads_name.bind fun j first first' hij hfirst => ?_
  obtain rfl : first = first' := hfirst.erased
  refine runs_repeatFrom (I := fun j a a' => i < j ∧ a = a') (fun k left left' hleft => ?_)
    ⟨hij, rfl⟩
  obtain ⟨hik, rfl⟩ := hleft
  refine .peekKind_bind (.ite (fun hdot => ?_) fun _ => .pure (.done ⟨hik, .nil hik.le, rfl⟩))
  refine .consume_bind (isProper_of_test (P := (· == .dot)) hdot (by decide)) fun _ => ?_
  refine .requireWhere_bind (by decide) fun _ halike => .pure (.yield (by omega) ⟨by omega, ?_⟩)
  rw [halike.word]

end Ambient.Twin

namespace Ambient

/-- The parsers of the level run in lockstep. -/
structure Level.Reads (T : Twin) (level : Level) : Prop where
  typeExpr : T.Reads level.typeExpr
  operand : T.Reads level.operand

/-- The tokens that can be modifiers: two keywords and some identifiers. -/
theorem Parser.cases_of_isModifier {t : Token} (h : isModifier t) :
    t.kind = .kwAbstract ∨ t.kind = .kwDeclare ∨
      t.kind = .identifier ∧ t.word ∈ modifierWords := by
  unfold isModifier at h
  split at h
  · exact .inl ‹_›
  · exact .inr (.inl ‹_›)
  · exact .inr (.inr ⟨‹_›, List.contains_iff_mem.1 h⟩)
  · cases h

namespace Twin

variable {T : Twin} {i : Nat} {inner : Level}

/-! ## References and parameters -/

theorem reads_typeReference (hinner : inner.Reads T) : T.Reads (typeReference inner) := by
  refine reads_spanned fun i => ?_
  refine reads_entityName.bind fun j name name' hij hname => ?_
  obtain rfl : name = name' := hname.erased
  refine ((hinner.typeExpr.commaList (by decide)).passes_after (by decide)).bind
    fun k arguments arguments' hjk harguments => ?_
  exact .pure ⟨by omega, harguments.reference (by omega)⟩

theorem reads_typeParameter (hinner : inner.Reads T) : T.Reads (typeParameter inner) := by
  refine reads_spanned fun i => ?_
  refine reads_name.bind fun j name name' hij hname => ?_
  obtain rfl : name = name' := hname.erased
  refine (hinner.typeExpr.passes_after (by decide)).bind
    fun k constraint constraint' hjk hconstraint => ?_
  refine (hinner.typeExpr.passes_after (by decide)).bind
    fun l fallback fallback' hkl hfallback => ?_
  exact .pure ⟨by omega, hconstraint.typeParameter hfallback (by omega)⟩

theorem passes_typeParameters (hinner : inner.Reads T) : T.Passes (typeParameters inner) :=
  ((reads_typeParameter hinner).commaList (by decide)).passes_after (by decide)

theorem reads_parameter (hinner : inner.Reads T) : T.Reads (parameter inner) := by
  refine reads_spanned fun i => ?_
  refine Passes.bind (passes_accept (by decide)) fun j rest rest' hij hrest => ?_
  obtain rfl : rest = rest' := hrest.erased
  refine .requireWhere_bind (by decide) fun _ halike => ?_
  refine Passes.bind (passes_accept (by decide)) fun k optional optional' hjk hoptional => ?_
  obtain rfl : optional = optional' := hoptional.erased
  refine (hinner.typeExpr.passes_after (by decide)).bind fun l type type' hkl htype => ?_
  rw [halike.word]
  exact .pure ⟨by omega, htype.parameter (by omega)⟩

theorem reads_parameters (hinner : inner.Reads T) : T.Reads (parameters inner) := by
  intro i
  refine .require_bind (by decide) fun _ _ => ?_
  exact ((reads_parameter hinner).commaList (by decide)).runs_of_le (by omega)

/-! ## Members -/

theorem isProper_of_isModifier {t : Token} (h : isModifier t) : IsProper t.kind := by
  rcases cases_of_isModifier h with habstract | hdeclare | ⟨hidentifier, _⟩
  · rw [habstract]
    decide
  · rw [hdeclare]
    decide
  · rw [hidentifier]
    decide

theorem passes_skipModifiers : T.Passes skipModifiers := by
  refine fun i => runs_repeatFrom (I := fun j _ _ => i ≤ j) (fun j _ _ hij => ?_) le_rfl
  refine .peek2_bind fun ha hb => ?_
  have hmodifier : isModifier (T.left.token j) = isModifier (T.right.token j) := by
    rw [isModifier, isModifier, ha.kind, ha.word]
  dsimp only
  rw [hmodifier, hb.kind]
  refine .ite (fun h => ?_) fun _ => .pure (.done ⟨.nil hij, rfl⟩)
  refine .consume_bind ?_ fun _ => .pure (.yield (by omega) (by omega))
  rw [Twin.kind, ha.kind]
  exact isProper_of_isModifier (Bool.and_eq_true_iff.1 h).1

theorem reads_memberKey : T.Reads memberKey := by
  intro i
  refine .peek_bind fun halike => ?_
  rw [← halike.kind]
  split
  · exact reads_string i
  · exact reads_number i
  · rename_i hkind
    refine .consume_bind (by rw [Twin.kind, hkind]; decide) fun _ => ?_
    refine reads_entityName.bind fun j name name' hij hname => ?_
    obtain rfl : name = name' := hname.erased
    exact .require_bind (by decide) fun _ _ => .pure ⟨by omega, .nil (by omega), rfl⟩
  · refine .ite (fun hkey => ?_) fun _ => .fail (halike.unexpected _ _)
    refine .consume_bind (isProper_of_test hkey (by decide)) fun _ => ?_
    exact .pure ⟨by omega, .nil (by omega), halike.word⟩

theorem passes_typeAfterColon (hinner : inner.Reads T) : T.Passes (typeAfterColon inner) :=
  hinner.typeExpr.passes_after (by decide)

/-- The type parameters, the parameters and the result of a function, and what is made of them. -/
theorem Runs.signature_bind {α : Type} {R : Nat → α → α → Prop} (hinner : inner.Reads T)
    {f g : Option (List TypeParameter) → List Parameter → Option TypeExpr → Parser α}
    (h : ∀ j k l tps tps' ps ps' t t', i ≤ j → j < k → k ≤ l → Same T.left i j tps tps' →
      Same T.left j k ps ps' → Same T.left k l t t' → T.Runs l (f tps ps t) (g tps' ps' t') R) :
    T.Runs i
      (do let tps ← typeParameters inner
          let ps ← parameters inner
          let t ← typeAfterColon inner
          f tps ps t)
      (do let tps ← typeParameters inner
          let ps ← parameters inner
          let t ← typeAfterColon inner
          g tps ps t) R := by
  refine (passes_typeParameters hinner).bind fun j tps tps' hij htps => ?_
  refine (reads_parameters hinner).bind fun k ps ps' hjk hps => ?_
  refine (passes_typeAfterColon hinner).bind fun l t t' hkl ht => ?_
  exact h j k l tps tps' ps ps' t t' hij hjk hkl htps hps ht

theorem makes_indexSignature (hinner : inner.Reads T) (readonly : Bool) {start : Nat}
    (hstart : start ≤ i) :
    T.Makes start i (indexSignature inner readonly) (indexSignature inner readonly) := by
  refine .require_bind (by decide) fun _ _ => ?_
  refine reads_name.bind fun j name name' hij hname => ?_
  obtain rfl : name = name' := hname.erased
  refine .require_bind (by decide) fun _ _ => ?_
  refine hinner.typeExpr.bind fun k key key' hjk hkey => ?_
  refine .require_bind (by decide) fun _ _ => .require_bind (by decide) fun _ _ => ?_
  refine hinner.typeExpr.bind fun l type type' hkl htype => ?_
  exact .pure ⟨by omega, hkey.index htype (by omega) (by omega)⟩

theorem makes_keyed {initial : Option (Parser TypeExpr)} (hinner : inner.Reads T)
    (hinitial : ∀ p ∈ initial, T.Reads p) (readonly : Bool) {start : Nat} (hstart : start ≤ i)
    {a a' b b' c c' : Token} (ha : a.Alike a') (hb : b.Alike b') (hc : c.Alike c') :
    T.Makes start i (memberList.keyed inner initial readonly (a, b, c))
      (memberList.keyed inner initial readonly (a', b', c')) := by
  unfold memberList.keyed
  dsimp only
  rw [ha.kind, hb.kind, hc.kind]
  refine .ite (fun _ => makes_indexSignature hinner readonly hstart) fun _ => ?_
  refine reads_memberKey.bind fun j key key' hij hkey => ?_
  obtain rfl : key = key' := hkey.erased
  refine Passes.bind (passes_accept (by decide)) fun k optional optional' hjk hoptional => ?_
  obtain rfl : optional = optional' := hoptional.erased
  refine .peekKind_bind (.ite (fun _ => ?_) fun _ => ?_)
  · refine .signature_bind hinner fun l m n _ _ _ _ _ _ hkl hlm hmn htps hps hresult => ?_
    exact .pure ⟨by omega, htps.method hps hresult (by omega)⟩
  · refine (passes_typeAfterColon hinner).bind fun l type type' hkl htype => ?_
    cases initial with
    | none => exact .pure ⟨by omega, htype.property (by omega)⟩
    | some p =>
      refine ((hinitial p rfl).passes_after (by decide)).bind fun m value value' hlm hvalue => ?_
      exact .pure ⟨by omega, htype.property (by omega)⟩

theorem reads_member {initial : Option (Parser TypeExpr)} (hinner : inner.Reads T)
    (hinitial : ∀ p ∈ initial, T.Reads p) :
    T.Reads (spanned (memberList.member inner initial)) := by
  refine reads_spanned fun start => ?_
  unfold memberList.member
  extract_lets unmodified
  have hunmodified : ∀ i x, start ≤ i → T.Makes start i (unmodified x) (unmodified x) := by
    intro i x hstart
    refine .peek3_bind fun ha hb hc => ?_
    dsimp only
    rw [ha.kind, hb.kind]
    refine .ite (fun _ => ?_) fun _ => .ite (fun hnew => ?_) fun _ => .ite (fun hreadonly => ?_)
      fun _ => makes_keyed hinner hinitial false hstart ha hb hc
    · refine .signature_bind hinner fun l m n _ _ _ _ _ _ hkl hlm hmn htps hps hresult => ?_
      exact .pure ⟨by omega, htps.call hps hresult (by omega)⟩
    · have hkind := ha.kind.trans (eq_of_beq (Bool.and_eq_true_iff.1 hnew).1)
      refine .consume_bind (isProper_of_eq hkind (by decide)) fun _ => ?_
      refine .signature_bind hinner fun l m n _ _ _ _ _ _ hkl hlm hmn htps hps hresult => ?_
      exact .pure ⟨by omega, htps.construct hps hresult (by omega)⟩
    · have hkind := ha.kind.trans (eq_of_beq (Bool.and_eq_true_iff.1 hreadonly).1)
      refine .consume_bind (isProper_of_eq hkind (by decide)) fun _ => ?_
      refine .peek3_bind fun ha hb hc => ?_
      exact makes_keyed hinner hinitial true (by omega) ha hb hc
  clear_value unmodified
  refine .ite (fun _ => ?_) fun _ => ?_
  · exact passes_skipModifiers.bind fun j _ _ hj _ => hunmodified j _ hj
  · exact hunmodified _ _ le_rfl

/-- At the end of the text there is no member. -/
def NoMember (e : SyntaxError) : Prop :=
  e.cause = .expectedSyntax "member name" ∧ e.actual = some .endOfFile

theorem fails_member {s : Scanner} {stop : Nat} (hs : s.EndsAt stop)
    (initial : Option (Parser TypeExpr)) :
    Fails s stop stop (spanned (memberList.member inner initial)) NoMember := by
  have hend : (s.token stop).kind = .endOfFile := hs.ended
  have hfault : (s.token stop).fault = none := (s.reads_token stop).faultless (by simp [hend])
  have hkey : Fails s stop stop memberKey NoMember := by
    refine Moves.peek.bind_fails ?_
    rw [hend]
    refine fails_failWith ⟨?_, congrArg some hend⟩
    simp [Token.unexpected, Token.error, hfault, Cause.atFault]
  refine Moves.checkpoint.bind_fails (.bind ?_)
  unfold memberList.member
  extract_lets unmodified
  have hunmodified : ∀ x, Fails s stop stop (unmodified x) NoMember := by
    intro x
    refine (Moves.peek3 hs).bind_fails ?_
    have hkeyed : Fails s stop stop (memberList.keyed inner initial false
        (s.token stop, s.token (s.succ stop), s.token (s.succ (s.succ stop)))) NoMember := by
      unfold memberList.keyed
      dsimp only
      rw [if_neg (by simp [hend])]
      exact hkey.bind
    dsimp only
    rw [if_neg (by simp [hend, opensSignature]), if_neg (by simp [hend]), if_neg (by simp [hend])]
    exact hkeyed
  clear_value unmodified
  have hskip : Moves s stop stop stop skipModifiers () := by
    refine .repeatFrom (.bind (.peek2 hs) ?_)
    dsimp only
    rw [if_neg (by simp [isModifier, hend])]
    exact .pure _
  split
  · exact hskip.bind_fails (hunmodified _)
  · exact hunmodified _

/-- What comes behind the member `m`, in front of which `members` were read. -/
def memberEnd (m : Member) (members : List Member) : Parser (ForInStep (List Member)) := do
  if ← accept .semicolon then return .yield (m :: members)
  if ← accept .comma then return .yield (m :: members)
  let t ← peek
  if t.kind != .braceClose && !t.newlineBefore then
    failWith (t.unexpected (.requiredTokenNotFound .semicolon))
  return .yield (m :: members)

/-- One round of reading members. -/
def memberStep (inner : Level) (initial : Option (Parser TypeExpr)) (members : List Member) :
    Parser (ForInStep (List Member)) := do
  repeatFrom () fun _ => do
    if ← accept .semicolon then return .yield () else return .done ()
  if ← accept .braceClose then return .done members
  let m ← spanned (memberList.member inner initial)
  memberEnd m members

theorem memberList_eq (inner : Level) (initial : Option (Parser TypeExpr)) :
    memberList inner initial = (do
      let _ ← require .braceOpen
      let members ← repeatFrom [] (memberStep inner initial)
      return members.reverse) := rfl

theorem fails_memberStep {s : Scanner} {stop : Nat} (hs : s.EndsAt stop)
    (initial : Option (Parser TypeExpr)) (members : List Member) :
    Fails s stop stop (memberStep inner initial members) NoMember := by
  have hend : (s.token stop).kind = .endOfFile := hs.ended
  have hsemicolons : Moves s stop stop stop (repeatFrom () fun _ => do
      if ← accept .semicolon then return .yield () else return .done ()) () :=
    .repeatFrom (.bind (.accept (by simp [hend])) (.pure _))
  refine hsemicolons.bind_fails (Moves.bind_fails (.accept (by simp [hend])) ?_)
  exact (fails_member hs initial).bind

/-- A missing semicolon at the end of the text. -/
def NoSemicolon (e : SyntaxError) : Prop :=
  e.cause = .requiredTokenNotFound .semicolon ∧ e.actual = some .endOfFile

/-- At the end of the text nothing comes behind a member. With a line break before the end the next
member is missing, and without one the semicolon is. -/
theorem fails_memberEnd_bind {α : Type} {s : Scanner} {stop : Nat} (hs : s.EndsAt stop)
    {m : Member} {ms : List Member} {f : ForInStep (List Member) → Parser α}
    (hf : Fails s stop stop (f (.yield (m :: ms))) NoMember) :
    Fails s stop stop (memberEnd m ms >>= f) fun e =>
      if (s.token stop).newlineBefore then NoMember e else NoSemicolon e := by
  have hend : (s.token stop).kind = .endOfFile := hs.ended
  have hfault : (s.token stop).fault = none := (s.reads_token stop).faultless (by simp [hend])
  unfold memberEnd
  rw [bind_assoc]
  refine Moves.bind_fails (.accept (by simp [hend])) ?_
  simp only [Bool.false_eq_true, if_false, bind_assoc]
  refine Moves.bind_fails (.accept (by simp [hend])) ?_
  simp only [Bool.false_eq_true, if_false, bind_assoc]
  refine Moves.peek.bind_fails ?_
  cases hnewline : (s.token stop).newlineBefore with
  | true =>
    rw [if_neg (by simp)]
    simpa using hf
  | false =>
    rw [if_pos (by simp [hend])]
    refine .bind (.bind (fails_failWith ?_))
    simp [NoSemicolon, Token.unexpected, Token.error, hend, hfault, Cause.atFault]

theorem alike_of_newlines {e e' : SyntaxError}
    (h : if (T.left.token T.stop).newlineBefore then NoMember e else NoSemicolon e)
    (h' : if (T.right.token T.stop).newlineBefore then NoMember e' else NoSemicolon e') :
    e.Alike T.SameEnd e' := by
  have hends : T.SameEnd
      ↔ (T.left.token T.stop).newlineBefore = (T.right.token T.stop).newlineBefore := Iff.rfl
  unfold SyntaxError.Alike
  rw [hends]
  cases hl : (T.left.token T.stop).newlineBefore <;>
    cases hr : (T.right.token T.stop).newlineBefore <;>
    simp_all [NoMember, NoSemicolon]

/-- What comes behind a member. The two sides can only part at the end of the text, where both
fail. -/
theorem runs_memberEnd_bind {α : Type} {R : Nat → α → α → Prop} {m m' : Member}
    {ms ms' : List Member} {f g : ForInStep (List Member) → Parser α}
    (h : ∀ j, i ≤ j → T.Runs j (f (.yield (m :: ms))) (g (.yield (m' :: ms'))) R)
    (hf : Fails T.left T.stop T.stop (f (.yield (m :: ms))) NoMember)
    (hg : Fails T.right T.stop T.stop (g (.yield (m' :: ms'))) NoMember) :
    T.Runs i (memberEnd m ms >>= f) (memberEnd m' ms' >>= g) R := by
  refine .of_le_stop fun hi => ?_
  by_cases hend : T.kind i = .endOfFile
  -- the sides part here, so what comes next is compared as a whole
  · obtain rfl : i = T.stop := by
      by_contra hne
      exact T.endsAt.before i (by omega) hend
    exact .of_fails (fails_memberEnd_bind T.endsAt hf) (fails_memberEnd_bind T.endsAt_right hg)
      fun e e' he he' => alike_of_newlines he he'
  · unfold memberEnd
    rw [bind_assoc, bind_assoc]
    refine .accept_bind (by decide) (fun _ => h _ (by omega)) fun _ => ?_
    simp only [Bool.false_eq_true, if_false, bind_assoc]
    refine .accept_bind (by decide) (fun _ => h _ (by omega)) fun _ => ?_
    simp only [Bool.false_eq_true, if_false, bind_assoc]
    refine .peek_bind fun halike => ?_
    rw [halike.kind, halike.newline hend]
    split
    · exact Runs.fail (halike.unexpected _ _)
    · exact h _ le_rfl

theorem fails_repeatAtMost_memberStep {s : Scanner} {stop n : Nat} (hs : s.EndsAt stop)
    (initial : Option (Parser TypeExpr)) (members : List Member) (hn : 0 < n) :
    Fails s stop stop (repeatAtMost (memberStep inner initial) n members) NoMember := by
  obtain ⟨n, rfl⟩ : ∃ m, n = m + 1 := ⟨n - 1, by omega⟩
  unfold repeatAtMost
  exact (fails_memberStep hs initial members).bind

theorem runs_repeatAtMost_memberStep {initial : Option (Parser TypeExpr)} (hinner : inner.Reads T)
    (hinitial : ∀ p ∈ initial, T.Reads p) {start : Nat} (m n i : Nat) (hm : T.stop < i + m)
    (hn : T.stop < i + n) (ms ms' : List Member)
    (hms : Same T.left start i ms.reverse ms'.reverse) :
    T.Runs i (repeatAtMost (memberStep inner initial) m ms)
      (repeatAtMost (memberStep inner initial) n ms')
      fun j as as' => Same T.left start j as.reverse as'.reverse := by
  -- one step alone does not run in lockstep (`runs_memberEnd_bind`), so `runs_repeatAtMost` does
  -- not apply and the induction takes each step together with the rounds behind it
  induction m generalizing n i ms ms' with
  | zero => exact .of_le_stop fun hi => absurd hi (by omega)
  | succ m ih =>
    cases n with
    | zero => exact .of_le_stop fun hi => absurd hi (by omega)
    | succ n =>
      have hstart := hms.fits.le
      unfold repeatAtMost memberStep
      simp only [bind_assoc]
      have hsemicolons : T.Passes (repeatFrom () fun _ => do
          if ← accept .semicolon then return .yield () else return .done ()) := by
        refine fun i => runs_repeatFrom (I := fun j _ _ => i ≤ j) (fun j _ _ hij => ?_) le_rfl
        refine .accept_bind (by decide) (fun _ => .pure (.yield (by omega) (by omega))) fun _ => ?_
        exact .pure (.done ⟨.nil hij, rfl⟩)
      refine hsemicolons.bind fun j _ _ hij _ => ?_
      refine .accept_bind (by decide) (fun _ => .pure (hms.mono (by omega))) fun _ => ?_
      simp only [Bool.false_eq_true, if_false, bind_assoc]
      refine (reads_member hinner hinitial).bind fun k x x' hjk hx => ?_
      have hxs : Same T.left start k (x :: ms).reverse (x' :: ms').reverse := by
        simpa using hms.append hx.singleton hij
      refine .of_le_stop fun hk => runs_memberEnd_bind (fun l hkl => ?_) ?_ ?_
      · exact ih n l (by omega) (by omega) _ _ (hxs.mono (by omega))
      · exact fails_repeatAtMost_memberStep T.endsAt initial _ (by omega)
      · exact fails_repeatAtMost_memberStep T.endsAt_right initial _ (by omega)

theorem reads_memberList {initial : Option (Parser TypeExpr)} (hinner : inner.Reads T)
    (hinitial : ∀ p ∈ initial, T.Reads p) : T.Reads (memberList inner initial) := by
  intro i
  rw [memberList_eq]
  refine .require_bind (by decide) fun _ _ => .bind (R := fun j as as' =>
    Same T.left (i + 1) j as.reverse as'.reverse) ?_ fun j as as' hij has => ?_
  · intro b c hb hc
    have hm := hb.rounds
    have hn := hc.rounds
    exact runs_repeatAtMost_memberStep hinner hinitial b.rounds c.rounds _ (by omega) (by omega)
      [] [] (.nil le_rfl) b c hb hc
  · exact .pure ⟨by omega, has.mono (by omega)⟩

theorem reads_typeMembers (hinner : inner.Reads T) : T.Reads (typeMembers inner) :=
  reads_memberList hinner (by simp)

/-! ## Types from tightest to loosest -/

theorem reads_primaryType (hinner : inner.Reads T) : T.Reads (primaryType inner) := by
  intro i
  refine .peek_bind fun halike => ?_
  rw [← halike.kind]
  split
  · refine Makes.spanned ?_
    refine (reads_typeMembers hinner).bind fun j ms ms' hij hms => ?_
    exact .pure ⟨hij, hms.object (by omega)⟩
  · rename_i hkind
    refine Makes.spanned (.consume_bind (isProper_of_eq hkind (by decide)) fun _ => ?_)
    refine (hinner.typeExpr.commaList (by decide)).bind fun j elements elements' hij helements => ?_
    exact .pure ⟨by omega, helements.tuple (by omega)⟩
  · rename_i hkind
    refine Makes.spanned (.consume_bind (isProper_of_eq hkind (by decide)) fun _ => ?_)
    refine hinner.typeExpr.bind fun j type type' hij htype => ?_
    refine .require_bind (by decide) fun _ _ => ?_
    exact .pure ⟨by omega, htype.parenthesized (by omega)⟩
  · refine Makes.spanned (reads_string.bind fun j value value' hij hvalue => ?_)
    obtain rfl : value = value' := hvalue.erased
    exact .pure ⟨hij, .literal hij⟩
  · refine Makes.spanned (reads_number.bind fun j raw raw' hij hraw => ?_)
    obtain rfl : raw = raw' := hraw.erased
    exact .pure ⟨hij, .literal hij⟩
  · rename_i hkind
    refine Makes.spanned ((runs_negativeNumber hkind).bind fun j raw raw' _ hrun => ?_)
    obtain ⟨hij, hraw⟩ := hrun
    obtain rfl : raw = raw' := hraw.erased
    exact .pure ⟨hij, .literal hij⟩
  · rename_i hkind
    refine Makes.spanned (.consume_bind (isProper_of_eq hkind (by decide)) fun _ => ?_)
    exact .pure ⟨by omega, .literal (by omega)⟩
  · rename_i hkind
    refine Makes.spanned (.consume_bind (isProper_of_eq hkind (by decide)) fun _ => ?_)
    exact .pure ⟨by omega, .literal (by omega)⟩
  · rename_i hkind
    refine Makes.spanned (.consume_bind (isProper_of_eq hkind (by decide)) fun _ => ?_)
    exact .pure ⟨by omega, .this (by omega)⟩
  · rename_i hkind
    refine Makes.spanned (.consume_bind (isProper_of_eq hkind (by decide)) fun _ => ?_)
    refine reads_entityName.bind fun j name name' hij hname => ?_
    obtain rfl : name = name' := hname.erased
    exact .pure ⟨by omega, .query (by omega)⟩
  · exact .ite (fun _ => reads_typeReference hinner i) fun _ => .fail (halike.unexpected _ _)

theorem reads_classMembers (hinner : inner.Reads T) : T.Reads (classMembers inner) := by
  refine reads_memberList hinner fun p hp => ?_
  cases hp
  exact reads_primaryType hinner

theorem reads_suffixedType (hinner : inner.Reads T) : T.Reads (suffixedType inner) := by
  intro i
  refine .checkpoint_bind ((reads_primaryType hinner).bind fun j first first' hij hfirst => ?_)
  refine runs_repeatFrom (I := fun j a a' => i < j ∧ Same T.left i j a a')
    (fun k type type' htype => ?_) ⟨hij, hfirst⟩
  obtain ⟨hik, htype⟩ := htype
  refine .peek_bind fun halike => ?_
  have hcond : ((T.left.token k).kind != .bracketOpen || (T.left.token k).newlineBefore)
      = ((T.right.token k).kind != .bracketOpen || (T.right.token k).newlineBefore) := by
    rw [← halike.kind]
    by_cases hkind : (T.left.token k).kind = .bracketOpen
    · rw [halike.newline (by simp [hkind])]
    · rw [bne_iff_ne.2 hkind, Bool.true_or, Bool.true_or]
  rw [← hcond]
  refine .ite (fun _ => .pure (.done ⟨hik, htype⟩)) fun hgo => ?_
  have hkind : T.kind k = .bracketOpen := by
    by_contra hne
    exact hgo (by simp [hne])
  refine .consume_bind (isProper_of_eq hkind (by decide)) fun _ => ?_
  refine .accept_bind (by decide) (fun _ => ?_) fun _ => ?_
  · exact .since_bind (by omega) (.pure (.yield (by omega) ⟨by omega, htype.array (by omega)⟩))
  · refine hinner.typeExpr.bind fun l index index' hkl hindex => ?_
    refine .require_bind (by decide) fun _ _ => ?_
    refine .since_bind (by omega) (.pure (.yield (by omega) ⟨by omega, ?_⟩))
    exact htype.indexedAccess hindex (by omega) (by omega)

theorem readonlyFrom?_erase (start : Nat) (e : TypeExpr) :
    readonlyFrom? 0 e.erase = (readonlyFrom? start e).map TypeExpr.erase := by
  cases e <;> rfl

/-- A type that is marked as read only keeps its parts and starts at an earlier token. -/
theorem fits_readonlyFrom? {s : Scanner} {j k : Nat} {e type : TypeExpr}
    (h : Fits s j k [e.outline]) (htype : readonlyFrom? (s.token i).span.start e = some type)
    (hij : i < j) : Fits s i k [type.outline] := by
  cases e with
  | array span readonly element =>
    obtain rfl := Option.some.inj htype
    rw [TypeExpr.outline] at h
    cases h with
    | cons hja hab hparts hrest =>
      exact .cons le_rfl (by omega) (hparts.mono (by omega) le_rfl) hrest
  | tuple span readonly elements =>
    obtain rfl := Option.some.inj htype
    rw [TypeExpr.outline] at h
    cases h with
    | cons hja hab hparts hrest =>
      exact .cons le_rfl (by omega) (hparts.mono (by omega) le_rfl) hrest
  | _ => cases htype

theorem reads_operatorType (hinner : inner.Reads T) : T.Reads (operatorType inner) := by
  intro i
  refine .peekKind_bind ?_
  split
  · rename_i hkind
    refine Makes.spanned (.consume_bind (isProper_of_eq hkind (by decide)) fun _ => ?_)
    refine hinner.operand.bind fun j operand operand' hij hoperand => ?_
    exact .pure ⟨by omega, hoperand.keyOf (by omega)⟩
  · rename_i hkind
    refine .consume_bind (isProper_of_eq hkind (by decide)) fun halike => ?_
    refine hinner.operand.bind fun j operand operand' hij hoperand => ?_
    -- whether the operand can be marked does not depend on spans
    have hmap : (readonlyFrom? (T.left.token i).span.start operand).map TypeExpr.erase
        = (readonlyFrom? (T.right.token i).span.start operand').map TypeExpr.erase := by
      rw [← readonlyFrom?_erase, ← readonlyFrom?_erase]
      exact congrArg (readonlyFrom? 0) hoperand.erased
    cases hl : readonlyFrom? (T.left.token i).span.start operand with
    | none =>
      have hr : readonlyFrom? (T.right.token i).span.start operand' = none := by
        simpa [hl] using hmap.symm
      rw [hr]
      exact .fail ⟨rfl, .inl rfl⟩
    | some type =>
      obtain ⟨type', hr, herased⟩ : ∃ type', readonlyFrom? (T.right.token i).span.start operand'
          = some type' ∧ type'.erase = type.erase := by
        simpa [hl] using hmap.symm
      rw [hr]
      exact .pure ⟨by omega, fits_readonlyFrom? hoperand.fits hl (by omega), herased.symm⟩
  · exact reads_suffixedType hinner i

theorem reads_joined {sign : Kind} {make : Span → List TypeExpr → TypeExpr} {arm : Parser TypeExpr}
    (hsign : IsProper sign) (harm : T.Reads arm)
    (hmake : ∀ {i a j span as as'}, Same T.left a j as as' → i ≤ a → i < j →
      Same T.left i j (make (T.left.spanOf i j) as) (make span as')) :
    T.Reads (joined sign make arm) := by
  intro i
  refine .checkpoint_bind (Passes.bind (passes_accept hsign) fun j _ _ hij _ => ?_)
  refine harm.bind fun k first first' hjk hfirst => .peekKind_bind ?_
  refine .ite (fun _ => .pure ⟨by omega, hfirst.mono (by omega)⟩) fun _ => ?_
  refine (harm.passes_collect hsign).bind fun l others others' hkl hothers => ?_
  refine .since_bind (by omega) (.pure ⟨by omega, ?_⟩)
  exact hmake (hfirst.singleton.append hothers le_rfl) hij (by omega)

theorem reads_intersectionType (hinner : inner.Reads T) : T.Reads (intersectionType inner) :=
  reads_joined (by decide) (reads_operatorType hinner)
    fun h hia hij => h.intersection ⟨hia, le_rfl, hij⟩

theorem reads_unionType (hinner : inner.Reads T) : T.Reads (unionType inner) :=
  reads_joined (by decide) (reads_intersectionType hinner)
    fun h hia hij => h.union ⟨hia, le_rfl, hij⟩

theorem reads_functionType (hinner : inner.Reads T) : T.Reads (functionType inner) := by
  refine reads_spanned fun i => ?_
  refine (passes_typeParameters hinner).bind fun j tps tps' hij htps => ?_
  refine (reads_parameters hinner).bind fun k ps ps' hjk hps => ?_
  refine .require_bind (by decide) fun _ _ => ?_
  refine hinner.typeExpr.bind fun l result result' hkl hresult => ?_
  exact .pure ⟨by omega, htps.function hps hresult (by omega) (by omega)⟩

theorem reads_constructorType (hinner : inner.Reads T) : T.Reads (constructorType inner) := by
  refine reads_spanned fun i => .require_bind (by decide) fun _ _ => ?_
  refine (passes_typeParameters hinner).bind fun j tps tps' hij htps => ?_
  refine (reads_parameters hinner).bind fun k ps ps' hjk hps => ?_
  refine .require_bind (by decide) fun _ _ => ?_
  refine hinner.typeExpr.bind fun l result result' hkl hresult => ?_
  exact .pure ⟨by omega, htps.constructor hps hresult (by omega) (by omega)⟩

theorem runs_opensFunctionType :
    T.Runs i opensFunctionType opensFunctionType fun j x x' => j = i ∧ x = x' := by
  refine .peek4_bind fun t t' u u' v v' w w' ht hu hv hw => ?_
  dsimp only
  rw [hu.kind, hv.kind, hw.kind]
  split
  · exact .pure ⟨rfl, rfl⟩
  · exact .pure ⟨rfl, rfl⟩
  · split
    · split <;> exact .pure ⟨rfl, rfl⟩
    · exact .pure ⟨rfl, rfl⟩

theorem reads_anyType (hinner : inner.Reads T) : T.Reads (anyType inner) := by
  intro i
  refine .peekKind_bind ?_
  split
  · exact reads_functionType hinner i
  · exact reads_constructorType hinner i
  · rename_i hkind
    refine .peek2_bind fun ha hb => ?_
    dsimp only
    rw [hb.kind]
    refine .ite (fun _ => ?_) fun _ => reads_unionType hinner i
    refine .consume_bind (isProper_of_eq hkind (by decide)) fun _ => ?_
    exact (reads_constructorType hinner).runs_of_le (by omega)
  · refine runs_opensFunctionType.bind fun j x x' _ hrun => ?_
    obtain ⟨rfl, rfl⟩ := hrun
    exact .ite (fun _ => reads_functionType hinner j) fun _ => reads_unionType hinner j
  · exact reads_unionType hinner i

end Twin

theorem Level.reads_ofRoom (T : Twin) (room : Nat) : (Level.ofRoom room).Reads T := by
  induction room with
  | zero => exact ⟨Twin.reads_tooDeep, Twin.reads_tooDeep⟩
  | succ room ih => exact ⟨Twin.reads_anyType ih, Twin.reads_operatorType ih⟩

end Ambient
