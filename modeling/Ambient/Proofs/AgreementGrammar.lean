import Ambient.Proofs.Agreement
import Ambient.Proofs.LockstepTypes
/-!
# Agreement along the grammar

Two levels agree if their parsers do, where the second parser of types may go astray and the second
parser of operands may not (`Level.Agree`). Then every parser of the grammar built on the one agrees
with the same parser built on the other, up to whole files (`Parser.looks_file`). A type may be the
last part of a type parameter, a parameter, a member or a declaration, so these may go astray with
it. Where such a part is followed by a separator or a closing bracket, what goes astray fails there,
and no member and no statement starts with a `=>`.
-/

namespace Ambient

/-- The parsers of two levels agree. -/
class Level.Agree (T : Tolerance) (level level' : Level) : Prop where
  typeExpr : Parser.Looks T true level.typeExpr level'.typeExpr
  operand : Parser.Looks T false level.operand level'.operand

namespace Parser

variable {α : Type} {T : Tolerance} {loose : Bool}

/-! ## Literals and names -/

instance looks_stringWithSpan : Looks T loose stringWithSpan stringWithSpan := by
  unfold stringWithSpan
  refine Looks.bind inferInstance fun t => ?_
  split <;> infer_instance

instance looks_string : Looks T loose string string := by unfold string; infer_instance

instance looks_number : Looks T loose number number := by unfold number; infer_instance

instance looks_negativeNumber : Looks T loose negativeNumber negativeNumber := by
  unfold negativeNumber
  infer_instance

instance looks_tooDeep : Looks T loose (tooDeep : Parser α) tooDeep := by
  unfold tooDeep
  infer_instance

instance looks_entityName : Looks T loose entityName entityName := by
  unfold entityName
  infer_instance

instance looks_skipModifiers : Looks T loose skipModifiers skipModifiers := by
  unfold skipModifiers
  infer_instance

instance looks_memberKey : Looks T loose memberKey memberKey := by
  unfold memberKey
  refine Looks.bind inferInstance fun t => ?_
  split <;> infer_instance

instance looks_opensFunctionType : Looks T loose opensFunctionType opensFunctionType := by
  unfold opensFunctionType
  refine Looks.bind inferInstance fun (_, b, c, d) => ?_
  dsimp only
  split
  · infer_instance
  · infer_instance
  · split
    · split <;> infer_instance
    · infer_instance

/-! ## Parts of types -/

section

variable {inner inner' : Level} [hinner : Level.Agree T inner inner']

instance looks_levelTypeExpr : Looks T true inner.typeExpr inner'.typeExpr := hinner.typeExpr

instance looks_levelOperand : Looks T false inner.operand inner'.operand := hinner.operand

instance looks_typeReference : Looks T false (typeReference inner) (typeReference inner') := by
  unfold typeReference
  infer_instance

instance looks_typeParameter : Looks T true (typeParameter inner) (typeParameter inner') := by
  unfold typeParameter
  infer_instance

instance looks_typeParameters : Looks T loose (typeParameters inner) (typeParameters inner') := by
  unfold typeParameters
  infer_instance

instance looks_parameter : Looks T true (parameter inner) (parameter inner') := by
  unfold parameter
  infer_instance

instance looks_parameters : Looks T loose (parameters inner) (parameters inner') := by
  unfold parameters
  infer_instance

instance looks_typeAfterColon : Looks T true (typeAfterColon inner) (typeAfterColon inner') := by
  unfold typeAfterColon
  infer_instance

instance looks_indexSignature (readonly : Bool) :
    Looks T true (indexSignature inner readonly) (indexSignature inner' readonly) := by
  unfold indexSignature
  refine Looks.bind inferInstance fun _ => ?_
  infer_instance

/-! ## Members -/

/-- Initial values, if there are any, are read by parsers that agree. -/
inductive InitialAgree (T : Tolerance) :
    Option (Parser TypeExpr) → Option (Parser TypeExpr) → Prop
  | none : InitialAgree T none none
  | some {p q} : Looks T false p q → InitialAgree T (some p) (some q)

variable {initial initial' : Option (Parser TypeExpr)}

theorem looks_keyed (h : InitialAgree T initial initial') (readonly : Bool)
    (next : Token × Token × Token) :
    Looks T true (memberList.keyed inner initial readonly next)
      (memberList.keyed inner' initial' readonly next) := by
  unfold memberList.keyed
  obtain ⟨a, b, c⟩ := next
  cases h with
  | none => infer_instance
  | some h => infer_instance

theorem looks_member (h : InitialAgree T initial initial') :
    Looks T true (memberList.member inner initial) (memberList.member inner' initial') := by
  have hkeyed : ∀ readonly next, Looks T true (memberList.keyed inner initial readonly next)
      (memberList.keyed inner' initial' readonly next) := looks_keyed h
  unfold memberList.member
  extract_lets unmodified unmodified'
  have hunmodified : ∀ r, Looks T true (unmodified r) (unmodified' r) := by
    intro r
    refine Looks.bind inferInstance fun (a, b, c) => ?_
    dsimp only
    infer_instance
  clear_value unmodified unmodified'
  cases h with
  | none => exact hunmodified ()
  | some _ => exact Looks.bind looks_skipModifiers fun _ => inferInstance

instance stays_memberKey : Stays false memberKey := by
  unfold memberKey
  refine ⟨fun {s i} harrow => .behind .peek ?_⟩
  rw [harrow]
  exact .failWith

instance stays_skipModifiers : Stays true skipModifiers := by
  unfold skipModifiers
  refine ⟨fun {s i} harrow => .repeatFrom (.behind .peek2 ?_)⟩
  have hmodifier : isModifier (s.token i) = false := by simp [isModifier, harrow]
  dsimp only
  rw [hmodifier, Bool.false_and, if_neg Bool.false_ne_true]
  exact .pure ⟨(), rfl, rfl, harrow⟩

omit hinner in
theorem stays_member : Stays false (memberList.member inner initial) := by
  unfold memberList.member
  extract_lets unmodified
  have hunmodified : ∀ r, Stays false (unmodified r) := by
    intro r
    refine ⟨fun {s i} harrow => .behind .peek3 ?_⟩
    simp only [memberList.keyed, opensSignature, harrow]
    exact (stays_bind_of_false memberKey _).arrives harrow
  clear_value unmodified
  cases initial with
  | none => exact hunmodified ()
  | some _ => exact stays_bind skipModifiers unmodified

omit hinner in
theorem stays_memberStep (members : List Member) :
    Stays false (Twin.memberStep inner initial members) := by
  have hmember : Stays false (memberList.member inner initial) := stays_member
  have hsemicolons : Stays true (repeatFrom () fun _ => do
      if ← accept .semicolon then return .yield () else return .done ()) := by
    refine ⟨fun {s i} harrow => .repeatFrom (.accept_of_ne (by simp [harrow]) ?_)⟩
    exact .pure ⟨(), rfl, rfl, harrow⟩
  unfold Twin.memberStep
  infer_instance

theorem arrives_memberEnd (m : Member) (members : List Member) {s : Scanner} {i : Nat}
    (harrow : (s.token i).kind = .equalsChevronRight) :
    (Twin.memberEnd m members).Arrives s i fun r j =>
      (∃ ms, r = .yield ms) ∧ (s.token j).kind = .equalsChevronRight := by
  unfold Twin.memberEnd
  refine .accept_of_ne (by simp [harrow]) (.accept_of_ne (by simp [harrow]) (.behind .peek ?_))
  dsimp only
  split
  · exact .bind (P := fun _ _ => False) .failWith fun _ _ h => h.elim
  · exact .pure ⟨⟨_, rfl⟩, harrow⟩

/-- Behind a member the second parser may go astray with it, but only to read another member. -/
theorem pairs_memberStep (h : InitialAgree T initial initial') (members : List Member) {s : Scanner}
    {n i : Nat} : Pairs T s n (max n (i + 1)) i (fun r => ∃ ms, r = .yield ms)
      (Twin.memberStep inner initial members) (Twin.memberStep inner' initial' members) := by
  have hmember : Looks T true (memberList.member inner initial)
    (memberList.member inner' initial') := looks_member h
  have hmember' : Agrees T true (spanned (memberList.member inner initial))
    (spanned (memberList.member inner' initial')) := inferInstance
  have hend : ∀ m, Agrees T false (Twin.memberEnd m members) (Twin.memberEnd m members) := by
    unfold Twin.memberEnd
    infer_instance
  have hsemicolons : Looks T false
      (repeatFrom () fun _ => do
        if ← accept .semicolon then return .yield () else return .done ())
      (repeatFrom () fun _ => do
        if ← accept .semicolon then return .yield () else return .done ()) := inferInstance
  have hclose : Agrees T false (accept .braceClose) (accept .braceClose) := inferInstance
  unfold Twin.memberStep
  refine hsemicolons.bind_pairs fun _ j => hclose.bind_pairs fun closed j => ?_
  split
  · exact .pure _
  · refine hmember'.pairs.bind (fun m j => ?_) fun m _ j harrow =>
      arrives_memberEnd m members harrow
    exact (hend m).pairs.mono le_rfl fun _ h => absurd h Bool.false_ne_true

theorem looks_memberList (h : InitialAgree T initial initial') :
    Looks T false (memberList inner initial) (memberList inner' initial') := by
  rw [Twin.memberList_eq, Twin.memberList_eq]
  have hmembers : Looks T false (repeatFrom [] (Twin.memberStep inner initial))
      (repeatFrom [] (Twin.memberStep inner' initial')) :=
    ⟨pairs_repeatFrom (fun members _ _ _ => pairs_memberStep h members) (fun _ h => nomatch h)
      (fun _ _ members => stays_memberStep members) [] (Nat.zero_le _)⟩
  infer_instance

instance looks_typeMembers : Looks T false (typeMembers inner) (typeMembers inner') :=
  looks_memberList .none

/-! ## Types -/

instance looks_primaryType : Looks T false (primaryType inner) (primaryType inner') := by
  unfold primaryType
  refine Looks.bind inferInstance fun t => ?_
  split <;> infer_instance

instance looks_classMembers : Looks T false (classMembers inner) (classMembers inner') :=
  looks_memberList (.some looks_primaryType)

instance looks_suffixedType : Looks T false (suffixedType inner) (suffixedType inner') := by
  have hconsume : Agrees T false consume consume := inferInstance
  have haccept : Agrees T false (accept .bracketClose) (accept .bracketClose) := inferInstance
  have hrequire : Agrees T false (require .bracketClose) (require .bracketClose) := inferInstance
  have hindex : Agrees T true inner.typeExpr inner'.typeExpr := inferInstance
  unfold suffixedType
  refine ⟨fun {s n i} => .checkpoint_bind (looks_primaryType.bind_pairs fun first j => ?_)⟩
  refine (pairs_repeatFrom (N := i + 1) (E := fun _ => false = true) (fun type {m} k hm => ?_)
    (fun _ => Bool.false_ne_true) (fun _ h => absurd h Bool.false_ne_true) first
    (le_max_right _ _)).mono (le_max_left _ _) fun _ h => h
  -- token `i`, where the type starts, has been read
  have hstart : i < max m (k + 1) := by omega
  refine .peek_bind ?_
  split
  · exact .pure _
  · refine hconsume.bind_pairs fun _ k => haccept.bind_pairs fun closed k => ?_
    split
    · exact .since_bind hstart fun span => .pure _
    · refine hindex.pairs.bind (fun index k => ?_) fun index _ k harrow => ?_
      · exact hrequire.bind_pairs fun _ k => .since_bind hstart fun span => .pure _
      · exact (stays_bind_of_false (require .bracketClose) _).arrives harrow

instance looks_operatorType : Looks T false (operatorType inner) (operatorType inner') := by
  unfold operatorType
  refine Looks.bind inferInstance fun kind => ?_
  split
  · infer_instance
  · have hconsume : Agrees T false consume consume := inferInstance
    have hoperand : Agrees T false inner.operand inner'.operand := inferInstance
    refine ⟨hconsume.bind_pairs fun t _ => hoperand.bind_pairs fun operand _ => ?_⟩
    split
    · exact .pure _
    · exact .failWith _
  · infer_instance

instance looks_joined (sign : Kind) (make : Span → List TypeExpr → TypeExpr)
    (arm arm' : Parser TypeExpr) [harm : Looks T false arm arm'] :
    Looks T false (joined sign make arm) (joined sign make arm') := by
  have hfirst : Agrees T false arm arm' := inferInstance
  have hothers : Agrees T false (collect (after sign arm)) (collect (after sign arm')) :=
    inferInstance
  have hkind : Agrees T false peekKind peekKind := inferInstance
  unfold joined
  refine ⟨fun {s n i} => .checkpoint_bind (looks_accept.bind_pairs fun _ j => ?_)⟩
  have hstart : i < max n (i + 1) := by omega
  refine hfirst.bind_pairs fun first j => hkind.bind_pairs fun kind j => ?_
  split
  · exact .pure _
  · exact hothers.bind_pairs fun others j => .since_bind hstart fun span => .pure _

instance looks_unionType : Looks T false (unionType inner) (unionType inner') := by
  unfold unionType intersectionType
  infer_instance

instance looks_functionType : Looks T true (functionType inner) (functionType inner') := by
  unfold functionType
  infer_instance

instance looks_constructorType : Looks T true (constructorType inner) (constructorType inner') := by
  unfold constructorType
  infer_instance

instance looks_anyType : Looks T true (anyType inner) (anyType inner') := by
  unfold anyType
  refine Looks.bind inferInstance fun kind => ?_
  split <;> infer_instance

end

/-! ## Declarations -/

instance looks_dottedName : Looks T loose dottedName dottedName := by
  unfold dottedName
  infer_instance

instance looks_listedName : Looks T loose listedName listedName := by
  unfold listedName
  infer_instance

instance looks_listedNames : Looks T loose listedNames listedNames := by
  unfold listedNames
  infer_instance

instance looks_enumValue : Looks T loose enumValue enumValue := by
  unfold enumValue
  refine Looks.bind inferInstance fun kind => ?_
  split <;> infer_instance

instance looks_enumMember : Looks T loose enumMember enumMember := by
  unfold enumMember
  infer_instance

instance looks_enumDeclaration (exported : Export) :
    Looks T loose (enumDeclaration exported) (enumDeclaration exported) := by
  unfold enumDeclaration
  infer_instance

instance looks_importedNames (defaultName : Option String) :
    Looks T loose (importedNames defaultName) (importedNames defaultName) := by
  unfold importedNames
  infer_instance

instance looks_importClause : Looks T loose importClause importClause := by
  unfold importClause
  infer_instance

instance looks_importStatement : Looks T loose importStatement importStatement := by
  unfold importStatement
  refine Looks.spanned (Looks.bind inferInstance fun _ =>
    Agrees.bind inferInstance fun (a, b) => ?_)
  dsimp only
  split <;> infer_instance

instance looks_exportAssignment : Looks T loose exportAssignment exportAssignment := by
  unfold exportAssignment
  infer_instance

instance looks_exportAsNamespace : Looks T loose exportAsNamespace exportAsNamespace := by
  unfold exportAsNamespace
  infer_instance

instance looks_exportList : Looks T loose exportList exportList := by
  unfold exportList
  infer_instance

instance looks_emptyStatement : Looks T loose emptyStatement emptyStatement := by
  unfold emptyStatement
  infer_instance

section

variable {types types' : Level} [Level.Agree T types types']

instance looks_variableDeclaration (exported : Export) :
    Looks T true (variableDeclaration types exported) (variableDeclaration types' exported) := by
  unfold variableDeclaration
  infer_instance

instance looks_functionDeclaration (exported : Export) :
    Looks T true (functionDeclaration types exported) (functionDeclaration types' exported) := by
  unfold functionDeclaration
  infer_instance

instance looks_typeAliasDeclaration (exported : Export) :
    Looks T true (typeAliasDeclaration types exported) (typeAliasDeclaration types' exported) := by
  unfold typeAliasDeclaration
  infer_instance

instance looks_interfaceDeclaration (exported : Export) :
    Looks T loose (interfaceDeclaration types exported) (interfaceDeclaration types' exported) := by
  unfold interfaceDeclaration
  infer_instance

instance looks_classDeclaration (exported : Export) :
    Looks T loose (classDeclaration types exported) (classDeclaration types' exported) := by
  unfold classDeclaration
  infer_instance

variable {body body' : Parser (List Statement)} [Looks T false body body']

instance looks_block : Looks T loose (block body) (block body') := by
  unfold block
  infer_instance

instance looks_moduleDeclaration :
    Looks T loose (moduleDeclaration body) (moduleDeclaration body') := by
  have hname : Looks T false moduleDeclaration.moduleName moduleDeclaration.moduleName := by
    unfold moduleDeclaration.moduleName
    refine Looks.bind inferInstance fun kind => ?_
    split
    · refine Agrees.bind inferInstance fun (span, value) => ?_
      infer_instance
    · refine ⟨fun {s n i} => Pairs.mono (m := max n (i + 1)) ?_ (le_max_left _ _) fun _ h => h⟩
      refine .checkpoint_bind (looks_dottedName.bind_pairs fun path j => ?_)
      exact .since_bind (by omega) fun span => .pure _
  have hbody : Looks T false (moduleDeclaration.moduleBody body)
      (moduleDeclaration.moduleBody body') := by
    unfold moduleDeclaration.moduleBody
    infer_instance
  unfold moduleDeclaration
  refine Looks.spanned (Looks.bind inferInstance fun _ => Agrees.bind inferInstance fun _ => ?_)
  infer_instance

instance looks_namespaceDeclaration (exported : Export) :
    Looks T loose (namespaceDeclaration body exported) (namespaceDeclaration body' exported) := by
  unfold namespaceDeclaration
  infer_instance

instance looks_globalDeclaration :
    Looks T loose (globalDeclaration body) (globalDeclaration body') := by
  unfold globalDeclaration
  infer_instance

instance looks_declaration (exported : Export) :
    Looks T true (declaration types body exported) (declaration types' body' exported) := by
  unfold declaration
  refine Looks.bind inferInstance fun declared => Agrees.bind inferInstance fun (a, b) => ?_
  dsimp only
  split <;> infer_instance

instance looks_statementContent :
    Looks T true (statementContent types body) (statementContent types' body') := by
  unfold statementContent
  refine Looks.bind inferInstance fun (a, b) => ?_
  dsimp only
  split
  · infer_instance
  · infer_instance
  · split
    · infer_instance
    · infer_instance
    · infer_instance
    · refine Agrees.bind inferInstance fun (_, _, c) => ?_
      dsimp only
      infer_instance
    · infer_instance
    · infer_instance
  · infer_instance

instance looks_statement : Looks T true (statement types body) (statement types' body') := by
  unfold statement
  infer_instance

omit [Level.Agree T types types'] [Looks T false body body'] in
theorem stays_statement : Stays false (statement types body) := by
  have hdeclaration : Stays false (declaration types body .none) := by
    unfold declaration
    refine ⟨fun {s i} harrow => .accept_of_ne (by simp [harrow]) (.behind .peek2 ?_)⟩
    simp only [harrow]
    exact .failWith
  have hcontent : Stays false (statementContent types body) := by
    unfold statementContent
    refine ⟨fun {s i} harrow => .behind .peek2 ?_⟩
    simp only [harrow]
    exact hdeclaration.arrives harrow
  unfold statement
  infer_instance

/-- No statement starts with a `=>`, so a statement that goes astray is followed by a failure. -/
instance looks_statements (close : Kind) [hclose : Fact (close ≠ .equalsChevronRight)] :
    Looks T loose (statements types body close) (statements types' body' close) := by
  have hstatement : Agrees T true (statement types body) (statement types' body') := inferInstance
  have hstays : Stays false (statement types' body') := stays_statement
  unfold statements
  refine Looks.collect (E := fun r => ∃ st, r = some st) ?_ (fun h => nomatch h) fun _ _ => ?_
  · intro s n i
    refine looks_peekKind.bind_pairs fun kind j => ?_
    split
    · exact .pure _
    · exact hstatement.pairs.bind (fun st j => .pure _) fun st _ j harrow =>
        .pure ⟨⟨st, rfl⟩, harrow⟩
  · refine ⟨fun {s i} harrow => .behind .peekKind ?_⟩
    rw [harrow, if_neg (by simpa using hclose.1.symm)]
    exact (stays_bind_of_false (statement types' body') _).arrives harrow

end

/-! ## Files -/

section

variable {types types' : Nat → Level} [htypes : ∀ room, Level.Agree T (types room) (types' room)]

instance : Fact (Kind.endOfFile ≠ .equalsChevronRight) := ⟨nofun⟩

instance looks_blockBody (room : Nat) :
    Looks T false (blockBody types room) (blockBody types' room) := by
  induction room with
  | zero => exact looks_tooDeep
  | succ room ih => exact looks_statements .braceClose

theorem looks_file (room : Nat) : Looks T false (file types room) (file types' room) := by
  unfold file
  infer_instance

end

end Parser

end Ambient
