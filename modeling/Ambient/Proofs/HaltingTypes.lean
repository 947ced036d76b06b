import Ambient.Proofs.Halting
import Ambient.Proofs.LockstepTypes
/-!
# Types up to the horizon

The parsers of words, literals, members and types halt. A name may be an empty identifier, but what
must come behind a name is a sign, a keyword or a line break, and there is none of these beyond the
horizon. Each parser needs the parsers one level further down, so the levels follow by induction on
the room for nesting (`Level.halts_ofRoom`).
-/

open Ambient.Parser

namespace Ambient.Horizon

variable {H : Horizon} {i : Nat}

/-! ## Words and literals -/

theorem advances_nameWithSpan : H.Advances H.stop H.last nameWithSpan :=
  (advances_requireWhere (by decide)).bind fun _ => steps_pure _

theorem advances_name : H.Advances H.stop H.last name :=
  advances_nameWithSpan.bind fun _ => steps_pure _

/-- A statement does not end behind an empty identifier. -/
theorem steps_statementEnd : H.Steps H.last H.stop statementEnd := by
  intro i hi
  refine .accept_bind hi (by decide) (fun hlt => .pure ⟨by omega, hlt⟩) ?_
  refine .behind (.peek (by omega)) (.ite (fun hend => .pure ⟨le_rfl, ?_⟩) fun _ => ?_)
  · by_contra hlt
    obtain ⟨hkind, hnewline⟩ := token_of_stop_lt hi (not_le.1 hlt)
    simp [hkind, hnewline] at hend
  · exact .fail (H.sound_unexpected i _) (by omega)

theorem advances_stringWithSpan : H.Advances H.last H.stop stringWithSpan := by
  refine fun i hi => .require_bind hi (by decide) fun hlt => ?_
  split
  · exact .pure ⟨Nat.lt_succ_self i, hlt⟩
  · exact .fail (H.sound_error i _) (by omega)

theorem advances_string : H.Advances H.last H.stop string :=
  advances_stringWithSpan.bind fun _ => steps_pure _

theorem advances_number : H.Advances H.last H.stop number := by
  refine fun i hi => .require_bind hi (by decide) fun hlt => .ite (fun _ => ?_) fun _ => ?_
  · exact .pure ⟨Nat.lt_succ_self i, hlt⟩
  · exact .fail (H.sound_error i _) (by omega)

/-- A token that has text is consumed. -/
theorem Halts.consume_firm_bind {β : Type} {Q : β → Nat → Prop} {f : Token → Parser β}
    (hi : i ≤ H.last) (hkind : (H.token i).kind.IsFirm)
    (h : i < H.stop → H.Halts (i + 1) (f (H.token i)) Q) : H.Halts i (consume >>= f) Q :=
  .consume_bind hi hkind.1 (h (lt_stop_of_isFirm hi hkind))

/-- The minus sign must come next. -/
theorem halts_negativeNumber (hi : i ≤ H.last) (hkind : (H.token i).kind = .hyphen) :
    H.Halts i negativeNumber fun _ j => i < j ∧ j ≤ H.stop := by
  refine .consume_firm_bind hi (by rw [hkind]; decide) fun hlt => ?_
  have hlast := H.stop_le_last
  exact (advances_number (i + 1) (by omega)).bind fun _ j hj => .pure (by omega)

theorem halts_tooDeep {α : Type} {P : α → Nat → Prop} (hi : i ≤ H.last) :
    H.Halts i (tooDeep : Parser α) P :=
  .behind (.peek (by omega)) (.fail (H.sound_error i _) (by omega))

theorem advances_entityName : H.Advances H.stop H.last entityName := by
  have hlast := H.stop_le_last
  refine advances_name.bind fun first => steps_repeatFrom (b := H.last) (fun left i hi => ?_) _
  refine .behind (.bind (.peek (by omega)) (.pure _)) (.ite (fun hdot => ?_) fun _ => ?_)
  · refine .consume_firm_bind hi (by rw [eq_of_beq hdot]; decide) fun hlt => ?_
    exact .requireWhere_bind hlt (by decide) fun hlt' => .pure ⟨by omega, hlt'⟩
  · exact .pure ⟨le_rfl, hi⟩

/-! ## References and parameters -/

/-- From token `i` up to `j` stands a type, whose span is one of tokens. -/
def Covers (H : Horizon) (i : Nat) (type : TypeExpr) (j : Nat) : Prop :=
  i < j ∧ j ≤ H.last ∧ ∃ a b, i ≤ a ∧ a < b ∧ type.span = H.scanner.spanOf a b

/-- The parser reads a type. -/
def ReadsType (H : Horizon) (p : Parser TypeExpr) : Prop := ∀ i ≤ H.stop, H.Halts i p (H.Covers i)

theorem ReadsType.advances {p : Parser TypeExpr} (h : H.ReadsType p) :
    H.Advances H.stop H.last p := fun i hi => (h i hi).mono fun _ _ hj => ⟨hj.1, hj.2.1⟩

/-- A type that takes the span handed to it. -/
theorem Halts.type {p : Parser (Span → TypeExpr)} (hp : H.Halts i p fun make j =>
    i < j ∧ j ≤ H.last ∧ ∀ span, (make span).span = span) :
    H.Halts i (Parser.spanned p) (H.Covers i) :=
  .spanned (hp.mono fun _ j h => ⟨h.1, h.1, h.2.1, i, j, le_rfl, h.1, h.2.2 _⟩)

end Horizon

/-- The parsers of the level halt. -/
structure Level.Halts (H : Horizon) (level : Level) : Prop where
  typeExpr : H.Advances H.stop H.last level.typeExpr
  operand : H.ReadsType level.operand

namespace Horizon

variable {H : Horizon} {i : Nat} {inner : Level}

section

variable (hinner : inner.Halts H)
include hinner

theorem readsType_typeReference : H.ReadsType (typeReference inner) := by
  intro i hi
  refine .type ((advances_entityName i hi).bind fun name j hj => ?_)
  have harguments : H.Steps H.stop H.last (commaList .chevronRight inner.typeExpr) :=
    (steps_commaList (by decide) hinner.typeExpr).loosen
  refine (steps_after (by decide) harguments j hj.2).bind fun arguments k hk => ?_
  exact .pure ⟨by omega, hk.2, fun _ => rfl⟩

theorem advances_typeParameter : H.Advances H.stop H.last (typeParameter inner) :=
  advances_spanned (advances_name.bind fun _ =>
    (steps_after (by decide) hinner.typeExpr.steps).bind fun _ =>
    (steps_after (by decide) hinner.typeExpr.steps).bind fun _ => steps_pure _)

theorem steps_typeParameters : H.Steps H.last H.last (typeParameters inner) :=
  steps_after (by decide) (steps_commaList (by decide) (advances_typeParameter hinner)).loosen

theorem advances_parameter : H.Advances H.stop H.last (parameter inner) :=
  advances_spanned ((steps_accept (a := H.stop) (by decide)).bind_advances fun _ =>
    (advances_requireWhere (by decide)).bind fun _ =>
    (steps_accept (a := H.last) (by decide)).bind fun _ =>
    (steps_after (by decide) hinner.typeExpr.steps).bind fun _ => steps_pure _)

theorem advances_parameters : H.Advances H.last H.stop (parameters inner) :=
  (advances_require (by decide)).bind fun _ =>
    steps_commaList (by decide) (advances_parameter hinner)

theorem steps_typeAfterColon : H.Steps H.last H.last (typeAfterColon inner) :=
  steps_after (by decide) hinner.typeExpr.steps

/-- The type parameters, the parameters and the result of a function, and what is made of them. -/
theorem advances_signature {α : Type}
    (make : Option (List TypeParameter) → List Parameter → Option TypeExpr → α) :
    H.Advances H.last H.last (do
      let typeParameters ← typeParameters inner
      let parameters ← parameters inner
      let result ← typeAfterColon inner
      return make typeParameters parameters result) :=
  (steps_typeParameters hinner).bind_advances fun _ => (advances_parameters hinner).bind fun _ =>
    (steps_typeAfterColon hinner).bind fun _ => steps_pure _

/-! ## Members -/

omit hinner in
theorem text_ne_nil_of_isModifier {t : Token} (h : isModifier t) :
    t.kind.IsFirm ∨ t.text ≠ [] := by
  have hwords : ∀ word ∈ modifierWords, word ≠ "" := by decide
  rcases cases_of_isModifier h with habstract | hdeclare | ⟨_, hword⟩
  · rw [habstract]
    exact .inl (by decide)
  · rw [hdeclare]
    exact .inl (by decide)
  · refine .inr fun hnil => hwords _ hword ?_
    rw [Token.word, hnil]

omit hinner in
/-- An empty identifier is no modifier. -/
theorem steps_skipModifiers : H.Steps H.stop H.stop skipModifiers := by
  have hlast := H.stop_le_last
  refine steps_repeatFrom (b := H.stop) (fun _ i hi => ?_) ()
  refine .behind (.peek2 (by omega)) (.ite (fun h => ?_) fun _ => .pure ⟨le_rfl, hi⟩)
  have hlt : i < H.stop := by
    rcases text_ne_nil_of_isModifier (Bool.and_eq_true_iff.1 h).1 with hkind | htext
    · exact lt_stop_of_isFirm (by omega) hkind
    · exact lt_stop_of_text (by omega) htext
  exact .consume_bind (by omega) (kind_ne_endOfFile hlt) (.pure ⟨Nat.lt_succ_self i, hlt⟩)

omit hinner in
theorem advances_memberKey : H.Advances H.stop H.last memberKey := by
  intro i hi
  have hlast := H.stop_le_last
  refine .behind (.peek (by omega)) ?_
  split
  · exact advances_string.loosen i (by omega)
  · exact advances_number.loosen i (by omega)
  · rename_i hkind
    refine .consume_firm_bind (by omega) (by rw [hkind]; decide) fun hlt => ?_
    refine (advances_entityName (i + 1) hlt).bind fun name j hj => ?_
    exact .require_bind hj.2 (by decide) fun hlt => .pure (by omega)
  · refine .ite (fun hkey => ?_) fun _ => .fail (H.sound_unexpected i _) (by omega)
    have hkind : (H.token i).kind ≠ .endOfFile := by
      intro heq
      rw [heq] at hkey
      cases hkey
    exact .consume_bind (by omega) hkind (.pure ⟨Nat.lt_succ_self i, lt_last hi hkind⟩)

theorem advances_indexSignature (readonly : Bool) :
    H.Advances H.last H.last (indexSignature inner readonly) :=
  (advances_require (by decide)).bind fun _ => advances_name.steps.bind fun _ =>
    (advances_require (by decide)).steps.bind fun _ => hinner.typeExpr.steps.bind fun _ =>
    (advances_require (by decide)).steps.bind fun _ =>
    (advances_require (by decide)).steps.bind fun _ => hinner.typeExpr.steps.bind fun _ =>
    steps_pure _

theorem advances_keyed {initial : Option (Parser TypeExpr)}
    (hinitial : ∀ p ∈ initial, H.ReadsType p) (readonly : Bool) (next : Token × Token × Token) :
    H.Advances H.stop H.last (memberList.keyed inner initial readonly next) := by
  have hlast := H.stop_le_last
  obtain ⟨a, b, c⟩ := next
  unfold memberList.keyed
  refine .ite (fun i hi => advances_indexSignature hinner readonly i (by omega)) ?_
  refine fun i hi => (advances_memberKey i hi).bind fun key j hj => ?_
  refine (steps_accept (a := H.last) (by decide) j hj.2).bind fun optional k hk => ?_
  refine .behind (.bind (.peek (by omega)) (.pure _)) (.ite (fun _ => ?_) fun _ => ?_)
  · exact (advances_signature hinner _ k hk.2).mono fun _ l hl => by omega
  · refine (steps_typeAfterColon hinner k hk.2).bind fun type l hl => ?_
    cases initial with
    | none => exact .pure (by omega)
    | some p =>
      have hp := (hinitial p rfl).advances.steps
      exact (steps_after (by decide) hp l hl.2).bind fun _ m hm => .pure (by omega)

theorem advances_member {initial : Option (Parser TypeExpr)}
    (hinitial : ∀ p ∈ initial, H.ReadsType p) :
    H.Advances H.stop H.last (memberList.member inner initial) := by
  have hlast := H.stop_le_last
  unfold memberList.member
  extract_lets unmodified
  have hunmodified : ∀ x, H.Advances H.stop H.last (unmodified x) := by
    intro x i hi
    refine .behind (.peek3 (by omega)) (.ite (fun _ => ?_) fun _ => .ite (fun hnew => ?_) fun _ =>
      .ite (fun hreadonly => ?_) fun _ => advances_keyed hinner hinitial false _ i hi)
    · exact advances_signature hinner _ i (by omega)
    · have hkind := eq_of_beq (Bool.and_eq_true_iff.1 hnew).1
      refine .consume_firm_bind (by omega) (by rw [hkind]; decide) fun hlt => ?_
      exact (advances_signature hinner _ (i + 1) (by omega)).mono fun _ j hj => by omega
    · have hkind := eq_of_beq (Bool.and_eq_true_iff.1 hreadonly).1
      refine .consume_firm_bind (by omega) (by rw [hkind]; decide) fun hlt => ?_
      refine .behind (.peek3 (by omega)) ?_
      exact (advances_keyed hinner hinitial true _ (i + 1) hlt).mono fun _ j hj => by omega
  clear_value unmodified
  exact .ite (steps_skipModifiers.bind_advances hunmodified) (hunmodified _)

/-- Another member comes only behind a separator or on a new line. -/
theorem advances_memberList {initial : Option (Parser TypeExpr)}
    (hinitial : ∀ p ∈ initial, H.ReadsType p) :
    H.Advances H.last H.stop (memberList inner initial) := by
  have hlast := H.stop_le_last
  rw [Twin.memberList_eq]
  refine (advances_require (by decide)).bind fun _ => Steps.bind
    (steps_repeatFrom (b := H.stop) (c := H.stop) (fun members i hi => ?_) []) fun _ => steps_pure _
  have hsemicolons : H.Steps H.stop H.stop (repeatFrom () fun _ => do
      if ← accept .semicolon then return .yield () else return .done ()) := by
    refine steps_repeatFrom (b := H.stop) (fun _ i hi => ?_) ()
    exact .accept_bind (by omega) (by decide) (fun hlt => .pure ⟨by omega, hlt⟩)
      (.pure ⟨le_rfl, hi⟩)
  refine (hsemicolons i hi).bind fun _ j hj => ?_
  refine .accept_bind (by omega) (by decide) (fun hlt => .pure ⟨by omega, hlt⟩) ?_
  refine (advances_spanned (advances_member hinner hinitial) j hj.2).bind fun m k hk => ?_
  refine .accept_bind (by omega) (by decide) (fun hlt => .pure ⟨by omega, hlt⟩) ?_
  refine .accept_bind (by omega) (by decide) (fun hlt => .pure ⟨by omega, hlt⟩) ?_
  refine .behind (.peek (by omega)) (.ite (fun _ => ?_) fun hsame => ?_)
  · exact .fail_bind (H.sound_unexpected k _) (by omega)
  · refine .pure ⟨by omega, not_lt.1 fun hlt => hsame ?_⟩
    obtain ⟨hkind, hnewline⟩ := token_of_stop_lt hk.2 hlt
    simp [hkind, hnewline]

theorem advances_typeMembers : H.Advances H.last H.stop (typeMembers inner) :=
  advances_memberList hinner (by simp)

/-! ## Types from tightest to loosest -/

theorem readsType_primaryType : H.ReadsType (primaryType inner) := by
  intro i hi
  have hlast := H.stop_le_last
  refine .behind (.peek (by omega)) ?_
  -- a type that is one token
  have hword : ∀ {make : Span → TypeExpr}, (H.token i).kind.IsFirm →
      (∀ span, (make span).span = span) →
      H.Halts i (spanned do let _ ← consume; return make) (H.Covers i) := fun hkind hmake =>
    .type (.consume_firm_bind (by omega) hkind fun hlt => .pure ⟨by omega, by omega, hmake⟩)
  split
  · refine .type ((advances_typeMembers hinner i (by omega)).bind fun ms j hj => ?_)
    exact .pure ⟨by omega, by omega, fun _ => rfl⟩
  · rename_i hkind
    refine .type (.consume_firm_bind (by omega) (by rw [hkind]; decide) fun hlt => ?_)
    refine (steps_commaList (by decide) hinner.typeExpr (i + 1) hlt).bind fun elements j hj => ?_
    exact .pure ⟨by omega, by omega, fun _ => rfl⟩
  · rename_i hkind
    refine .type (.consume_firm_bind (by omega) (by rw [hkind]; decide) fun hlt => ?_)
    refine (hinner.typeExpr (i + 1) hlt).bind fun type j hj => ?_
    refine .require_bind hj.2 (by decide) fun hlt => .pure ⟨by omega, by omega, fun _ => rfl⟩
  · refine .type ((advances_string i (by omega)).bind fun value j hj => ?_)
    exact .pure ⟨by omega, by omega, fun _ => rfl⟩
  · refine .type ((advances_number i (by omega)).bind fun raw j hj => ?_)
    exact .pure ⟨by omega, by omega, fun _ => rfl⟩
  · rename_i hkind
    refine .type ((halts_negativeNumber (by omega) hkind).bind fun raw j hj => ?_)
    exact .pure ⟨by omega, by omega, fun _ => rfl⟩
  · rename_i hkind
    exact hword (by rw [hkind]; decide) fun _ => rfl
  · rename_i hkind
    exact hword (by rw [hkind]; decide) fun _ => rfl
  · rename_i hkind
    exact hword (by rw [hkind]; decide) fun _ => rfl
  · rename_i hkind
    refine .type (.consume_firm_bind (by omega) (by rw [hkind]; decide) fun hlt => ?_)
    refine (advances_entityName (i + 1) hlt).bind fun name j hj => ?_
    exact .pure ⟨by omega, by omega, fun _ => rfl⟩
  · refine .ite (fun _ => readsType_typeReference hinner i hi) fun _ => ?_
    exact .fail (H.sound_unexpected i _) (by omega)

theorem advances_classMembers : H.Advances H.last H.stop (classMembers inner) := by
  refine advances_memberList hinner fun p hp => ?_
  cases hp
  exact readsType_primaryType hinner

theorem readsType_suffixedType : H.ReadsType (suffixedType inner) := by
  intro i hi
  refine .behind .checkpoint ((readsType_primaryType hinner i hi).bind fun first j hfirst => ?_)
  refine .repeatFrom (I := H.Covers i) (fun _ j h => h.2.1) (fun type j htype => ?_) hfirst
  obtain ⟨hij, hj, hspan⟩ := htype
  refine .behind (.peek (by omega)) (.ite (fun _ => .pure ⟨hij, hj, hspan⟩) fun hgo => ?_)
  have hkind : (H.token j).kind = .bracketOpen := by
    by_contra hne
    exact hgo (by simp [hne])
  have hlast := H.stop_le_last
  refine .consume_firm_bind hj (by rw [hkind]; decide) fun hlt => ?_
  refine .accept_bind (by omega) (by decide) (fun hlt => ?_) ?_
  · refine .behind (.since (show i < j + 1 + 1 by omega)) (.pure ⟨by omega, by omega, by omega, ?_⟩)
    exact ⟨i, j + 1 + 1, le_rfl, by omega, rfl⟩
  · refine (hinner.typeExpr (j + 1) hlt).bind fun index k hk => ?_
    refine .require_bind hk.2 (by decide) fun hlt => ?_
    refine .behind (.since (show i < k + 1 by omega)) (.pure ⟨by omega, by omega, by omega, ?_⟩)
    exact ⟨i, k + 1, le_rfl, by omega, rfl⟩

omit hinner in
theorem span_readonlyFrom? {start : Nat} {e type : TypeExpr}
    (h : readonlyFrom? start e = some type) : type.span = ⟨start, e.span.stop⟩ := by
  cases e with
  | array span readonly element => cases h; rfl
  | tuple span readonly elements => cases h; rfl
  | _ => cases h

theorem readsType_operatorType : H.ReadsType (operatorType inner) := by
  intro i hi
  have hlast := H.stop_le_last
  refine .behind (.bind (.peek (by omega)) (.pure _)) ?_
  split
  · rename_i hkind
    refine .type (.consume_firm_bind (by omega) (by rw [hkind]; decide) fun hlt => ?_)
    refine (hinner.operand (i + 1) hlt).bind fun operand j hoperand => ?_
    obtain ⟨hij, hj, -⟩ := hoperand
    exact .pure ⟨by omega, hj, fun _ => rfl⟩
  · rename_i hkind
    refine .consume_firm_bind (by omega) (by rw [hkind]; decide) fun hlt => ?_
    refine (hinner.operand (i + 1) hlt).bind fun operand j hoperand => ?_
    obtain ⟨hij, hj, a, b, ha, hab, hspan⟩ := hoperand
    split
    · rename_i type htype
      refine .pure ⟨by omega, hj, i, b, le_rfl, by omega, ?_⟩
      rw [span_readonlyFrom? htype, hspan]
      rfl
    · refine .fail ⟨fun h => ?_, a, b, hab, hspan⟩ (by omega)
      cases congrArg SyntaxError.cause h
  · exact readsType_suffixedType hinner i hi

omit hinner in
theorem advances_joined {sign : Kind} {make : Span → List TypeExpr → TypeExpr}
    {arm : Parser TypeExpr} (hsign : sign.IsFirm) (harm : H.Advances H.stop H.last arm) :
    H.Advances H.stop H.last (joined sign make arm) := by
  intro i hi
  refine .behind .checkpoint ((steps_accept (a := H.stop) hsign i hi).bind fun _ j hj => ?_)
  refine (harm j hj.2).bind fun first k hk => ?_
  refine .behind (.bind (.peek (by omega)) (.pure _)) (.ite (fun _ => .pure (by omega)) fun _ => ?_)
  refine (steps_collect_after hsign harm.steps k hk.2).bind fun others l hl => ?_
  exact .behind (.since (show i < l by omega)) (.pure (by omega))

theorem advances_unionType : H.Advances H.stop H.last (unionType inner) :=
  advances_joined (by decide) (advances_joined (by decide) (readsType_operatorType hinner).advances)

theorem advances_functionType : H.Advances H.last H.last (functionType inner) :=
  advances_spanned ((steps_typeParameters hinner).bind_advances fun _ =>
    (advances_parameters hinner).bind fun _ => (advances_require (by decide)).steps.bind fun _ =>
    hinner.typeExpr.steps.bind fun _ => steps_pure _)

theorem advances_constructorType : H.Advances H.last H.last (constructorType inner) :=
  advances_spanned ((advances_require (by decide)).bind fun _ =>
    (steps_typeParameters hinner).bind fun _ => (advances_parameters hinner).steps.bind fun _ =>
    (advances_require (by decide)).steps.bind fun _ => hinner.typeExpr.steps.bind fun _ =>
    steps_pure _)

omit hinner in
theorem halts_opensFunctionType (hi : i ≤ H.last) :
    H.Halts i opensFunctionType fun _ j => j = i := by
  refine .behind (.peek4 hi) ?_
  dsimp only
  split
  · exact .pure rfl
  · exact .pure rfl
  · split
    · split <;> exact .pure rfl
    · exact .pure rfl

theorem advances_anyType : H.Advances H.stop H.last (anyType inner) := by
  intro i hi
  have hlast := H.stop_le_last
  refine .behind (.bind (.peek (by omega)) (.pure _)) ?_
  split
  · exact advances_functionType hinner i (by omega)
  · exact advances_constructorType hinner i (by omega)
  · rename_i hkind
    refine .behind (.peek2 (by omega)) (.ite (fun _ => ?_) fun _ => advances_unionType hinner i hi)
    refine .consume_firm_bind (by omega) (by rw [hkind]; decide) fun hlt => ?_
    exact (advances_constructorType hinner (i + 1) (by omega)).mono fun _ j hj => by omega
  · refine (halts_opensFunctionType (by omega)).bind fun opens j hj => ?_
    subst hj
    exact .ite (fun _ => advances_functionType hinner j (by omega)) fun _ =>
      advances_unionType hinner j hi
  · exact advances_unionType hinner i hi

end

end Horizon

theorem Level.halts_ofRoom (H : Horizon) (room : Nat) : (Level.ofRoom room).Halts H := by
  induction room with
  | zero =>
    have hlast := H.stop_le_last
    exact ⟨fun i hi => Horizon.halts_tooDeep (by omega),
      fun i hi => Horizon.halts_tooDeep (by omega)⟩
  | succ room ih => exact ⟨Horizon.advances_anyType ih, Horizon.readsType_operatorType ih⟩

end Ambient
