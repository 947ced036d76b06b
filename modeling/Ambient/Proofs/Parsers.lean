import Ambient.Grammar.Statement
/-!
# What parsers keep of the buffer

A parser only ever looks at the next token, consumes it, or goes back to where it stood. So what
these keep of a buffer, every parser of the grammar keeps (`Parser.Keeps`, found by instance search
along the structure of the parser), and what it gives may rely on it (`Parser.Gives`).
-/

namespace Ambient

/-- A property of buffers that looking at the next token, consuming it and going back keep. -/
class Buffer.IsInvariant (I : Buffer → Prop) : Prop where
  look : ∀ {b : Buffer}, I b → I b.look.2
  consume : ∀ {b : Buffer}, I b → I b.consume.2
  back : ∀ {b b' : Buffer}, I b → I b' → b.seen.size ≤ b'.seen.size →
    I { b' with cursor := b.cursor }

namespace Buffer

/-- A property that does not depend on where the cursor stands. -/
theorem IsInvariant.of_move {I : Buffer → Prop} (look : ∀ {b : Buffer}, I b → I b.look.2)
    (move : ∀ {b : Buffer} (cursor : Nat), I b → I { b with cursor := cursor }) :
    IsInvariant I where
  look := look
  consume {b} h := by
    change I (b.look.2.pass b.look.1)
    unfold pass
    split
    · exact look h
    · exact move _ (look h)
  back _ h _ := move _ h

theorem size_seen_look (b : Buffer) : b.seen.size ≤ b.look.2.seen.size := by
  unfold look
  split
  · exact Nat.le_refl _
  · simp

theorem seen_consume (b : Buffer) : b.consume.2.seen = b.look.2.seen := by
  change (b.look.2.pass b.look.1).seen = _
  unfold pass
  split <;> rfl

theorem size_seen_consume (b : Buffer) : b.seen.size ≤ b.consume.2.seen.size := by
  rw [seen_consume]
  exact b.size_seen_look

end Buffer

/-- The buffer that a parser leaves. -/
def Reply.buffer {α : Type} : Reply α → Buffer
  | .ok _ b => b
  | .fail _ b => b

namespace Parser

/-- Whether it succeeds or fails, the parser keeps `I` and the tokens that were seen before. -/
class Keeps (I : Buffer → Prop) {α : Type} (p : Parser α) : Prop where
  buffer : ∀ {b : Buffer}, I b → I (p b).buffer
  grows : ∀ (b : Buffer), b.seen.size ≤ (p b).buffer.seen.size

variable {I : Buffer → Prop} {α β : Type}

/-! ## Combining parsers -/

/-- A parser that leaves the buffer as it is. -/
theorem Keeps.of_still {p : Parser α} (h : ∀ b, (p b).buffer = b) : Keeps I p where
  buffer {b} hb := (h b).symm ▸ hb
  grows b := Nat.le_of_eq (by rw [h b])

instance keeps_pure (a : α) : Keeps I (pure a : Parser α) := .of_still fun _ => rfl

theorem Keeps.bind {p : Parser α} {f : α → Parser β} (hp : Keeps I p) (hf : ∀ a, Keeps I (f a)) :
    Keeps I (p >>= f) := by
  constructor
  · intro b h
    have hb := hp.buffer h
    change I (andThen p f b).buffer
    unfold andThen
    cases hr : p b with
    | ok a b' =>
      rw [hr] at hb
      exact (hf a).buffer hb
    | fail e b' =>
      rw [hr] at hb
      exact hb
  · intro b
    have hb := hp.grows b
    change _ ≤ (andThen p f b).buffer.seen.size
    unfold andThen
    cases hr : p b with
    | ok a b' =>
      rw [hr] at hb
      exact Nat.le_trans hb ((hf a).grows b')
    | fail e b' =>
      rw [hr] at hb
      exact hb

instance keeps_bind (p : Parser α) (f : α → Parser β) [hp : Keeps I p] [hf : ∀ a, Keeps I (f a)] :
    Keeps I (p >>= f) := hp.bind hf

instance keeps_failWith (e : SyntaxError) : Keeps I (failWith e : Parser α) :=
  .of_still fun _ => rfl

instance keeps_ite (c : Prop) [Decidable c] (p q : Parser α) [Keeps I p] [Keeps I q] :
    Keeps I (if c then p else q) := by
  split
  · assumption
  · assumption

instance keeps_checkpoint : Keeps I checkpoint := .of_still fun _ => rfl

instance keeps_since (start : Nat) : Keeps I (since start) := .of_still fun _ => rfl

instance keeps_sourceSpan : Keeps I sourceSpan := .of_still fun _ => rfl

theorem Keeps.spanned {p : Parser (Span → α)} (hp : Keeps I p) : Keeps I (spanned p) := by
  unfold Parser.spanned
  infer_instance

instance keeps_spanned (p : Parser (Span → α)) [hp : Keeps I p] : Keeps I (spanned p) := hp.spanned

theorem keeps_repeatAtMost (step : α → Parser (ForInStep α)) [hstep : ∀ a, Keeps I (step a)]
    (rounds : Nat) (a : α) : Keeps I (repeatAtMost step rounds a) := by
  induction rounds generalizing a with
  | zero =>
    unfold repeatAtMost
    infer_instance
  | succ rounds ih =>
    unfold repeatAtMost
    refine (hstep a).bind fun r => ?_
    cases r with
    | yield a => exact ih a
    | done a => exact keeps_pure a

theorem Keeps.repeatFrom {step : α → Parser (ForInStep α)} (hstep : ∀ a, Keeps I (step a))
    (a : α) : Keeps I (repeatFrom a step) :=
  ⟨fun {b} h => (keeps_repeatAtMost step b.rounds a).buffer h,
    fun b => (keeps_repeatAtMost (I := I) step b.rounds a).grows b⟩

instance keeps_repeatFrom (a : α) (step : α → Parser (ForInStep α))
    [hstep : ∀ a, Keeps I (step a)] : Keeps I (Parser.repeatFrom a step) := .repeatFrom hstep a

/-- One round of collecting, behind the items that were collected before. -/
def collectStep (item : Parser (Option α)) (items : List α) : Parser (ForInStep (List α)) := do
  match ← item with
  | some a => return .yield (a :: items)
  | none => return .done items

theorem collect_eq (item : Parser (Option α)) :
    collect item = (do
      let items ← repeatFrom [] (collectStep item)
      return items.reverse) := rfl

/-! ## Looking and consuming -/

section

variable [hI : Buffer.IsInvariant I]

instance keeps_peek : Keeps I peek := ⟨fun h => hI.look h, Buffer.size_seen_look⟩

instance keeps_consume : Keeps I consume := ⟨fun h => hI.consume h, Buffer.size_seen_consume⟩

instance keeps_lookahead (p : Parser α) [hp : Keeps I p] : Keeps I (lookahead p) := by
  have hbuffer : ∀ b, (lookahead p b).buffer = { (p b).buffer with cursor := b.cursor } := by
    intro b
    unfold lookahead
    cases p b <;> rfl
  constructor
  · intro b h
    rw [hbuffer]
    exact hI.back h (hp.buffer h) (hp.grows b)
  · intro b
    rw [hbuffer]
    exact hp.grows b

instance keeps_peek2 : Keeps I peek2 := by unfold peek2; infer_instance

instance keeps_peek3 : Keeps I peek3 := by unfold peek3; infer_instance

instance keeps_peek4 : Keeps I peek4 := by unfold peek4; infer_instance

instance keeps_peekKind : Keeps I peekKind := by unfold peekKind; infer_instance

instance keeps_tryKind (kind : Kind) : Keeps I (tryKind kind) := by unfold tryKind; infer_instance

instance keeps_accept (kind : Kind) : Keeps I (accept kind) := by unfold accept; infer_instance

instance keeps_require (kind : Kind) : Keeps I (require kind) := by unfold require; infer_instance

instance keeps_requireWhere (p : Kind → Bool) (what : String) : Keeps I (requireWhere p what) := by
  unfold requireWhere
  infer_instance

instance keeps_nameWithSpan : Keeps I nameWithSpan := by unfold nameWithSpan; infer_instance

instance keeps_name : Keeps I name := by unfold name; infer_instance

instance keeps_statementEnd : Keeps I statementEnd := by unfold statementEnd; infer_instance

instance keeps_after (kind : Kind) (p : Parser α) [Keeps I p] : Keeps I (after kind p) := by
  unfold after
  infer_instance

instance keeps_collectStep (item : Parser (Option α)) [hitem : Keeps I item] (items : List α) :
    Keeps I (collectStep item items) := by
  unfold collectStep
  refine hitem.bind fun r => ?_
  cases r <;> infer_instance

instance keeps_collect (item : Parser (Option α)) [Keeps I item] : Keeps I (collect item) := by
  rw [collect_eq]
  infer_instance

instance keeps_commaList (close : Kind) (item : Parser α) [Keeps I item] :
    Keeps I (commaList close item) := by
  unfold commaList
  infer_instance

instance keeps_separated (separator : Kind) (item : Parser α) [Keeps I item] :
    Keeps I (separated separator item) := by
  unfold separated
  infer_instance

/-! ## Literals and types -/

instance keeps_stringWithSpan : Keeps I stringWithSpan := by
  unfold stringWithSpan
  refine Keeps.bind inferInstance fun t => ?_
  split <;> infer_instance

instance keeps_string : Keeps I string := by unfold string; infer_instance

instance keeps_number : Keeps I number := by unfold number; infer_instance

instance keeps_negativeNumber : Keeps I negativeNumber := by unfold negativeNumber; infer_instance

instance keeps_tooDeep : Keeps I (tooDeep : Parser α) := by unfold tooDeep; infer_instance

instance keeps_entityName : Keeps I entityName := by unfold entityName; infer_instance

end

end Parser

/-- The parsers of a level keep `I`. -/
class Level.Keeps (I : Buffer → Prop) (level : Level) : Prop where
  typeExpr : Parser.Keeps I level.typeExpr
  operand : Parser.Keeps I level.operand

namespace Parser

section

variable {I : Buffer → Prop} [hI : Buffer.IsInvariant I] {inner : Level} [hinner : inner.Keeps I]

instance keeps_levelTypeExpr : Keeps I inner.typeExpr := hinner.typeExpr

instance keeps_levelOperand : Keeps I inner.operand := hinner.operand

instance keeps_typeReference : Keeps I (typeReference inner) := by
  unfold typeReference
  infer_instance

instance keeps_typeParameter : Keeps I (typeParameter inner) := by
  unfold typeParameter
  infer_instance

instance keeps_typeParameters : Keeps I (typeParameters inner) := by
  unfold typeParameters
  infer_instance

instance keeps_parameter : Keeps I (parameter inner) := by unfold parameter; infer_instance

instance keeps_parameters : Keeps I (parameters inner) := by unfold parameters; infer_instance

instance keeps_skipModifiers : Keeps I skipModifiers := by unfold skipModifiers; infer_instance

instance keeps_memberKey : Keeps I memberKey := by
  unfold memberKey
  refine Keeps.bind inferInstance fun t => ?_
  split <;> infer_instance

instance keeps_typeAfterColon : Keeps I (typeAfterColon inner) := by
  unfold typeAfterColon
  infer_instance

instance keeps_indexSignature (readonly : Bool) : Keeps I (indexSignature inner readonly) := by
  unfold indexSignature
  refine Keeps.bind inferInstance fun _ => Keeps.bind inferInstance fun _ => ?_
  infer_instance

theorem keeps_keyed {initial : Option (Parser TypeExpr)} (h : ∀ p ∈ initial, Keeps I p)
    (readonly : Bool) (next : Token × Token × Token) :
    Keeps I (memberList.keyed inner initial readonly next) := by
  unfold memberList.keyed
  obtain ⟨a, b, c⟩ := next
  cases initial with
  | none => infer_instance
  | some p =>
    have hp : Keeps I p := h p rfl
    infer_instance

theorem keeps_member {initial : Option (Parser TypeExpr)} (h : ∀ p ∈ initial, Keeps I p) :
    Keeps I (memberList.member inner initial) := by
  have hkeyed : ∀ readonly next, Keeps I (memberList.keyed inner initial readonly next) :=
    keeps_keyed h
  unfold memberList.member
  extract_lets unmodified
  have hunmodified : ∀ r, Keeps I (unmodified r) := by
    intro r
    refine Keeps.bind inferInstance fun (a, b, c) => ?_
    dsimp only
    split
    · infer_instance
    · split <;> infer_instance
  clear_value unmodified
  infer_instance

theorem keeps_memberList {initial : Option (Parser TypeExpr)} (h : ∀ p ∈ initial, Keeps I p) :
    Keeps I (memberList inner initial) := by
  have hmember : Keeps I (memberList.member inner initial) := keeps_member h
  unfold memberList
  refine Keeps.bind inferInstance fun _ => ?_
  refine Keeps.bind (.repeatFrom (fun members => ?_) []) inferInstance
  refine Keeps.bind inferInstance fun _ => Keeps.bind inferInstance fun closed => ?_
  dsimp only
  infer_instance

instance keeps_typeMembers : Keeps I (typeMembers inner) := keeps_memberList (by simp)

instance keeps_primaryType : Keeps I (primaryType inner) := by
  unfold primaryType
  refine Keeps.bind inferInstance fun t => ?_
  split <;> infer_instance

instance keeps_classMembers : Keeps I (classMembers inner) := by
  refine keeps_memberList fun p hp => ?_
  cases hp
  infer_instance

instance keeps_suffixedType : Keeps I (suffixedType inner) := by
  unfold suffixedType
  refine Keeps.bind inferInstance fun start => Keeps.bind inferInstance fun first => ?_
  refine .repeatFrom (fun type => Keeps.bind inferInstance fun t => ?_) first
  infer_instance

instance keeps_operatorType : Keeps I (operatorType inner) := by
  unfold operatorType
  refine Keeps.bind inferInstance fun kind => ?_
  split
  · infer_instance
  · refine Keeps.bind inferInstance fun t => Keeps.bind inferInstance fun operand => ?_
    split <;> infer_instance
  · infer_instance

instance keeps_joined (sign : Kind) (make : Span → List TypeExpr → TypeExpr)
    (arm : Parser TypeExpr) [Keeps I arm] : Keeps I (joined sign make arm) := by
  unfold joined
  infer_instance

instance keeps_unionType : Keeps I (unionType inner) := by
  unfold unionType intersectionType
  infer_instance

instance keeps_functionType : Keeps I (functionType inner) := by
  unfold functionType
  infer_instance

instance keeps_constructorType : Keeps I (constructorType inner) := by
  unfold constructorType
  infer_instance

instance keeps_opensFunctionType : Keeps I opensFunctionType := by
  unfold opensFunctionType
  refine Keeps.bind inferInstance fun (_, b, c, d) => ?_
  dsimp only
  split
  · infer_instance
  · infer_instance
  · split
    · split <;> infer_instance
    · infer_instance

instance keeps_anyType : Keeps I (anyType inner) := by
  unfold anyType
  refine Keeps.bind inferInstance fun kind => ?_
  split <;> infer_instance

end

end Parser

instance Level.keeps_ofRoom {I : Buffer → Prop} [Buffer.IsInvariant I] (room : Nat) :
    (Level.ofRoom room).Keeps I := by
  induction room with
  | zero => exact ⟨Parser.keeps_tooDeep, Parser.keeps_tooDeep⟩
  | succ room ih => exact ⟨Parser.keeps_anyType, Parser.keeps_operatorType⟩

/-! ## Statements -/

namespace Parser

section

variable {I : Buffer → Prop} [hI : Buffer.IsInvariant I]

instance keeps_dottedName : Keeps I dottedName := by unfold dottedName; infer_instance

instance keeps_listedName : Keeps I listedName := by unfold listedName; infer_instance

instance keeps_listedNames : Keeps I listedNames := by unfold listedNames; infer_instance

instance keeps_enumValue : Keeps I enumValue := by
  unfold enumValue
  refine Keeps.bind inferInstance fun kind => ?_
  split <;> infer_instance

instance keeps_enumMember : Keeps I enumMember := by unfold enumMember; infer_instance

instance keeps_enumDeclaration (exported : Export) : Keeps I (enumDeclaration exported) := by
  unfold enumDeclaration
  infer_instance

instance keeps_importedNames (defaultName : Option String) :
    Keeps I (importedNames defaultName) := by
  unfold importedNames
  infer_instance

instance keeps_importClause : Keeps I importClause := by unfold importClause; infer_instance

instance keeps_importStatement : Keeps I importStatement := by
  unfold importStatement
  apply Keeps.spanned
  refine Keeps.bind inferInstance fun _ => Keeps.bind inferInstance fun (a, b) => ?_
  dsimp only
  split
  · refine Keeps.bind inferInstance fun _ => Keeps.bind inferInstance fun kind => ?_
    infer_instance
  · refine Keeps.bind inferInstance fun kind => ?_
    infer_instance

instance keeps_exportAssignment : Keeps I exportAssignment := by
  unfold exportAssignment
  infer_instance

instance keeps_exportAsNamespace : Keeps I exportAsNamespace := by
  unfold exportAsNamespace
  infer_instance

instance keeps_exportList : Keeps I exportList := by unfold exportList; infer_instance

instance keeps_emptyStatement : Keeps I emptyStatement := by unfold emptyStatement; infer_instance

variable {types : Level} [types.Keeps I]

instance keeps_variableDeclaration (exported : Export) :
    Keeps I (variableDeclaration types exported) := by
  unfold variableDeclaration
  infer_instance

instance keeps_functionDeclaration (exported : Export) :
    Keeps I (functionDeclaration types exported) := by
  unfold functionDeclaration
  infer_instance

instance keeps_typeAliasDeclaration (exported : Export) :
    Keeps I (typeAliasDeclaration types exported) := by
  unfold typeAliasDeclaration
  infer_instance

instance keeps_interfaceDeclaration (exported : Export) :
    Keeps I (interfaceDeclaration types exported) := by
  unfold interfaceDeclaration
  infer_instance

instance keeps_classDeclaration (exported : Export) :
    Keeps I (classDeclaration types exported) := by
  unfold classDeclaration
  infer_instance

variable {body : Parser (List Statement)} [Keeps I body]

instance keeps_block : Keeps I (block body) := by unfold block; infer_instance

instance keeps_moduleName : Keeps I moduleDeclaration.moduleName := by
  unfold moduleDeclaration.moduleName
  infer_instance

instance keeps_moduleBody : Keeps I (moduleDeclaration.moduleBody body) := by
  unfold moduleDeclaration.moduleBody
  infer_instance

instance keeps_moduleDeclaration : Keeps I (moduleDeclaration body) := by
  unfold moduleDeclaration
  infer_instance

instance keeps_namespaceDeclaration (exported : Export) :
    Keeps I (namespaceDeclaration body exported) := by
  unfold namespaceDeclaration
  infer_instance

instance keeps_globalDeclaration : Keeps I (globalDeclaration body) := by
  unfold globalDeclaration
  infer_instance

instance keeps_declaration (exported : Export) : Keeps I (declaration types body exported) := by
  unfold declaration
  refine Keeps.bind inferInstance fun declared => Keeps.bind inferInstance fun (a, b) => ?_
  dsimp only
  split <;> infer_instance

instance keeps_statementContent : Keeps I (statementContent types body) := by
  unfold statementContent
  refine Keeps.bind inferInstance fun (a, b) => ?_
  dsimp only
  split
  · infer_instance
  · infer_instance
  · split <;> infer_instance
  · infer_instance

instance keeps_statement : Keeps I (statement types body) := by unfold statement; infer_instance

instance keeps_statements (close : Kind) : Keeps I (statements types body close) := by
  unfold statements
  infer_instance

end

instance keeps_blockBody {I : Buffer → Prop} [Buffer.IsInvariant I] {types : Nat → Level}
    [∀ room, (types room).Keeps I] (room : Nat) : Keeps I (blockBody types room) := by
  induction room with
  | zero => unfold blockBody; infer_instance
  | succ room ih => unfold blockBody; infer_instance

/-! ## What parsers give -/

/-- Where `I` holds, the parser gives values of which `P` holds, if it succeeds. -/
structure Gives (I : Buffer → Prop) {α : Type} (p : Parser α) (P : α → Prop) : Prop where
  value : ∀ {b b' : Buffer} {a : α}, I b → p b = .ok a b' → P a

namespace Gives

variable {I : Buffer → Prop} {α β : Type}

theorem pure {a : α} {P : α → Prop} (h : P a) : Gives I (Pure.pure a) P := by
  constructor
  rintro b b' _ _ ⟨⟩
  exact h

theorem bind {p : Parser α} {f : α → Parser β} {P : α → Prop} {Q : β → Prop} [hk : Keeps I p]
    (hp : Gives I p P) (hf : ∀ a, P a → Gives I (f a) Q) : Gives I (p >>= f) Q := by
  constructor
  intro b b' c hb h
  obtain ⟨a, b₁, hr, hrun⟩ := exists_of_bind_eq_ok h
  have hkeeps := hk.buffer hb
  rw [hr] at hkeeps
  exact (hf a (hp.value hb hr)).value hkeeps hrun

theorem mono {p : Parser α} {P Q : α → Prop} (hp : Gives I p P) (h : ∀ a, P a → Q a) :
    Gives I p Q := ⟨fun hb hrun => h _ (hp.value hb hrun)⟩

/-- Behind a parser whose value does not matter. -/
theorem behind {p : Parser α} {f : α → Parser β} {Q : β → Prop} [Keeps I p]
    (hf : ∀ a, Gives I (f a) Q) : Gives I (p >>= f) Q :=
  bind (P := fun _ => True) ⟨fun _ _ => trivial⟩ fun a _ => hf a

theorem failWith {e : SyntaxError} {P : α → Prop} : Gives I (Parser.failWith e) P := ⟨nofun⟩

theorem ite {c : Prop} [Decidable c] {p q : Parser α} {P : α → Prop} (hp : Gives I p P)
    (hq : Gives I q P) : Gives I (if c then p else q) P := by
  split
  · exact hp
  · exact hq

theorem spanned {p : Parser (Span → α)} {P : α → Prop}
    (hp : Gives I p fun make => ∀ span, P (make span)) : Gives I (Parser.spanned p) P := by
  constructor
  intro b b' a hb h
  change (p >>= _) b = _ at h
  obtain ⟨make, b₁, hr, hrun⟩ := exists_of_bind_eq_ok h
  cases hrun
  exact hp.value hb hr _

/-- An invariant of the value that a repetition works on. -/
theorem repeatAtMost {step : α → Parser (ForInStep α)} {P : α → Prop} [∀ a, Keeps I (step a)]
    (hstep : ∀ a, P a → Gives I (step a) fun
      | .yield a => P a
      | .done a => P a)
    (rounds : Nat) {a : α} (ha : P a) : Gives I (Parser.repeatAtMost step rounds a) P := by
  induction rounds generalizing a with
  | zero => exact failWith
  | succ rounds ih =>
    unfold Parser.repeatAtMost
    refine (hstep a ha).bind fun r hr => ?_
    cases r with
    | yield a => exact ih hr
    | done a => exact pure hr

theorem repeatFrom {step : α → Parser (ForInStep α)} {P : α → Prop} [∀ a, Keeps I (step a)]
    (hstep : ∀ a, P a → Gives I (step a) fun
      | .yield a => P a
      | .done a => P a)
    {a : α} (ha : P a) : Gives I (Parser.repeatFrom a step) P :=
  ⟨fun hb h => (repeatAtMost hstep _ ha).value hb h⟩

theorem collect {item : Parser (Option α)} {P : α → Prop} [Keeps I item] [Buffer.IsInvariant I]
    (hitem : Gives I item fun r => ∀ a ∈ r, P a) :
    Gives I (Parser.collect item) fun as => ∀ a ∈ as, P a := by
  rw [collect_eq]
  refine bind (repeatFrom (P := fun as => ∀ a ∈ as, P a) (fun as has => ?_) (by simp))
    fun as has => pure (by simpa using has)
  refine hitem.bind fun r hr => ?_
  cases r with
  | none => exact pure has
  | some a => exact pure (by simpa using ⟨hr a rfl, has⟩)

section

variable [Buffer.IsInvariant I] {p : Parser α} {P : α → Prop} [Keeps I p]

theorem after {kind : Kind} (hp : Gives I p P) :
    Gives I (Parser.after kind p) fun r => ∀ a ∈ r, P a := by
  unfold Parser.after
  refine behind fun _ => ite (hp.bind fun a ha => pure ?_) (pure (by simp))
  simpa using ha

theorem separated {separator : Kind} (hp : Gives I p P) :
    Gives I (Parser.separated separator p) fun as => ∀ a ∈ as, P a := by
  unfold Parser.separated
  refine hp.bind fun a ha => (collect hp.after).bind fun as has => pure ?_
  exact List.forall_mem_cons.2 ⟨ha, has⟩

theorem commaList {close : Kind} (hp : Gives I p P) :
    Gives I (Parser.commaList close p) fun as => ∀ a ∈ as, P a := by
  unfold Parser.commaList
  refine bind (repeatFrom (P := fun as => ∀ a ∈ as, P a) (fun as has => ?_) (by simp))
    fun as has => pure (by simpa using has)
  refine behind fun closed => ite (pure has) (hp.bind fun a ha => ?_)
  have hmore := List.forall_mem_cons.2 ⟨ha, has⟩
  exact behind fun _ => ite (pure hmore) (behind fun _ => pure hmore)

end

end Gives

end Parser

/-! ## What declarations are given -/

/-- Whether a declaration holds neither types nor statements. -/
def Declaration.isBare : Declaration → Bool
  | .ofEnum _ | .empty _ | .exportAsNamespace .. | .exportAssignment .. | .exportList _
  | .importing _ => true
  | _ => false

namespace Parser

section

variable {I : Buffer → Prop} [Buffer.IsInvariant I]

theorem gives_enumDeclaration (exported : Export) :
    Gives I (enumDeclaration exported) (Declaration.isBare ·) := by
  unfold enumDeclaration
  refine .spanned (.behind fun _ => .behind fun _ => .behind fun _ => .behind fun _ => ?_)
  exact .behind fun _ => .pure fun span => rfl

theorem gives_importStatement : Gives I importStatement (Declaration.isBare ·) := by
  unfold importStatement
  refine .spanned (.behind fun _ => .behind fun next => ?_)
  have hrest : ∀ typeOnly, Gives I (do
      if (← peekKind) == .literalString then
        let source ← string
        statementEnd
        return fun span => Declaration.importing
          { span, typeOnly, defaultName := none, namespaceName := none, names := [], source }
      else
        let clause ← importClause
        let _ ← require .kwFrom
        let source ← string
        statementEnd
        return fun span => Declaration.importing
          { span, typeOnly, defaultName := clause.defaultName,
            namespaceName := clause.namespaceName, names := clause.names, source })
      fun make => ∀ span, (make span).isBare := by
    intro typeOnly
    refine .behind fun kind => .ite ?_ ?_
    · exact .behind fun _ => .behind fun _ => .pure fun span => rfl
    · refine .behind fun _ => .behind fun _ => .behind fun _ => .behind fun _ => ?_
      exact .pure fun span => rfl
  exact .ite (.behind fun _ => hrest _) (hrest _)

theorem gives_exportAssignment : Gives I exportAssignment (Declaration.isBare ·) := by
  unfold exportAssignment
  refine .spanned (.behind fun _ => .behind fun _ => .behind fun _ => .behind fun _ => ?_)
  exact .pure fun span => rfl

theorem gives_exportAsNamespace : Gives I exportAsNamespace (Declaration.isBare ·) := by
  unfold exportAsNamespace
  refine .spanned (.behind fun _ => .behind fun _ => .behind fun _ => .behind fun _ => ?_)
  exact .behind fun _ => .pure fun span => rfl

theorem gives_exportList : Gives I exportList (Declaration.isBare ·) := by
  unfold exportList
  refine .spanned (.behind fun _ => .behind fun _ => .behind fun _ => .behind fun _ => ?_)
  exact .behind fun _ => .pure fun span => rfl

theorem gives_emptyStatement : Gives I emptyStatement (Declaration.isBare ·) := by
  unfold emptyStatement
  exact .spanned (.behind fun _ => .pure fun span => rfl)

end

/-- Every kind of declaration is given with `P`. -/
structure GivesDeclarations (I : Buffer → Prop) (types : Level) (body : Parser (List Statement))
    (P : Declaration → Prop) : Prop where
  bare : ∀ d : Declaration, d.isBare → P d
  ofModule : Gives I (moduleDeclaration body) P
  ofNamespace : ∀ exported, Gives I (namespaceDeclaration body exported) P
  ofGlobal : Gives I (globalDeclaration body) P
  ofVariable : ∀ exported, Gives I (variableDeclaration types exported) P
  ofFunction : ∀ exported, Gives I (functionDeclaration types exported) P
  ofTypeAlias : ∀ exported, Gives I (typeAliasDeclaration types exported) P
  ofInterface : ∀ exported, Gives I (interfaceDeclaration types exported) P
  ofClass : ∀ exported, Gives I (classDeclaration types exported) P

namespace GivesDeclarations

variable {I : Buffer → Prop} [Buffer.IsInvariant I] {types : Level}
  {body : Parser (List Statement)} {P : Declaration → Prop}

theorem declaration (h : GivesDeclarations I types body P) (exported : Export) :
    Gives I (Parser.declaration types body exported) P := by
  have henum := (gives_enumDeclaration (I := I) exported).mono h.bare
  unfold Parser.declaration
  refine .behind fun declared => .behind fun next => ?_
  obtain ⟨a, b⟩ := next
  dsimp only
  split
  · exact .ite h.ofModule .failWith
  · exact h.ofNamespace exported
  · exact .ite h.ofGlobal .failWith
  · exact .ite henum (h.ofVariable exported)
  · exact h.ofVariable exported
  · exact h.ofVariable exported
  · exact h.ofFunction exported
  · exact h.ofTypeAlias exported
  · exact h.ofInterface exported
  · exact h.ofClass exported
  · exact h.ofClass exported
  · exact henum
  · exact .failWith

theorem statementContent (h : GivesDeclarations I types body P) :
    Gives I (Parser.statementContent types body) P := by
  have hlist := (gives_exportList (I := I)).mono h.bare
  unfold Parser.statementContent
  refine .behind fun next => ?_
  obtain ⟨a, b⟩ := next
  dsimp only
  split
  · exact gives_emptyStatement.mono h.bare
  · exact gives_importStatement.mono h.bare
  · split
    · exact gives_exportAssignment.mono h.bare
    · exact gives_exportAsNamespace.mono h.bare
    · exact hlist
    · exact .behind fun _ => .ite hlist (.behind fun _ => h.declaration _)
    · exact .behind fun _ => .behind fun _ => h.declaration _
    · exact .behind fun _ => h.declaration _
  · exact h.declaration _

theorem statements [types.Keeps I] [Keeps I body] (h : GivesDeclarations I types body P)
    (close : Kind) :
    Gives I (Parser.statements types body close) fun ss => ∀ s ∈ ss, P s.declaration := by
  unfold Parser.statements Parser.statement
  refine .collect (.behind fun kind => .ite (.pure (by simp)) ?_)
  refine .bind (P := fun s => P s.declaration) (.spanned ?_) fun s hs => ?_
  · exact h.statementContent.bind fun d hd => .pure fun span => hd
  · exact .pure (by rintro _ ⟨⟩; exact hs)

end GivesDeclarations

end Parser

end Ambient
