import Ambient.Proofs.RoundTrip
/-!
# The types, names and blocks of a file

The types, names and blocks of a file enclose one another. Where one is a part of another, it either
stands inside it, or the other goes on behind it: a suffix behind a type, a dot behind a name. Every
type, name and block of a file is reached from the block of its statements (`Node.Reaches`).

What the parsers give of the parts of a signature, a member or a declaration, they have from the
parser of types and the parser of blocks. So a property of all parts follows from those two
(`Parser.givesDeclarations_inside`).
-/

namespace Ambient

/-! ## Nodes -/

/-- What can be nested: a type, a name, or the statements of a block. -/
inductive Node where
  | type (t : TypeExpr)
  | name (path : EntityName)
  | block (statements : List Statement)

/-- What stands inside a declaration. -/
def Declaration.inside : Declaration → List Node
  | .ofModule _ _ _ body => body.toList.map .block
  | .ofNamespace _ _ _ body | .ofGlobal _ body => [.block body]
  | .ofVariable d => d.type.toList.map .type
  | .ofFunction d =>
    (signatureTypes d.typeParameters d.parameters ++ d.result.toList).map .type
  | .ofTypeAlias d => (signatureTypes d.typeParameters [] ++ [d.body]).map .type
  | .ofInterface d =>
    (signatureTypes d.typeParameters [] ++ (d.bases ++ d.members.flatMap Member.types)).map .type
  | .ofClass d =>
    (signatureTypes d.typeParameters [] ++
      (d.base.toList ++ (d.interfaces ++ d.members.flatMap Member.types))).map .type
  | .ofEnum _ | .empty _ | .exportAsNamespace .. | .exportAssignment .. | .exportList _
  | .importing _ => []

namespace Node

/-- What stands inside a node. -/
def inside : Node → List Node
  | .type (.reference _ path arguments) => .name path :: (arguments.getD []).map .type
  | .type (.tuple _ _ elements) => elements.map .type
  | .type (.union _ arms) | .type (.intersection _ arms) => arms.map .type
  | .type (.function _ typeParameters parameters result)
  | .type (.constructor _ typeParameters parameters result) =>
    (signatureTypes typeParameters parameters ++ [result]).map .type
  | .type (.object _ members) => (members.flatMap Member.types).map .type
  | .type (.parenthesized _ inner) => [.type inner]
  | .type (.indexedAccess _ _ index) => [.type index]
  | .type (.query _ path) => [.name path]
  | .type (.keyOf _ operand) => [.type operand]
  | .type (.literal ..) | .type (.array ..) | .type (.this _) | .name _ => []
  | .block statements => statements.flatMap (·.declaration.inside)

/-- What a node goes on behind: the type before a suffix, or the name before a dot. -/
def before : Node → List Node
  | .type (.array _ _ element) => [.type element]
  | .type (.indexedAccess _ object _) => [.type object]
  | .name (.qualified left _) => [.name left]
  | _ => []

/-- From `outer` the node is reached by going `inwards` times inside and `back` times to what comes
before a suffix or a dot. All nodes on the way enclose one another. -/
inductive Reaches (outer : Node) : Nat → Nat → Node → Prop
  | refl : Reaches outer 0 0 outer
  | inside {inwards back : Nat} {node part : Node} :
    Reaches outer inwards back node → part ∈ node.inside → Reaches outer (inwards + 1) back part
  | before {inwards back : Nat} {node part : Node} :
    Reaches outer inwards back node → part ∈ node.before → Reaches outer inwards (back + 1) part

end Node

theorem Declaration.inside_of_isBare {d : Declaration} (h : d.isBare) : d.inside = [] := by
  cases d <;> first | rfl | cases h

theorem forall_mem_getD {α : Type} {P : α → Prop} {o : Option (List α)}
    (h : ∀ as ∈ o, ∀ a ∈ as, P a) : ∀ a ∈ o.getD [], P a := by
  cases o with
  | none => simp
  | some as => exact h as rfl

theorem signatureTypes_eq_append (typeParameters : Option (List TypeParameter))
    (parameters : List Parameter) : signatureTypes typeParameters parameters
      = signatureTypes typeParameters [] ++ parameters.flatMap (·.type.toList) := by
  simp [signatureTypes]

/-! ## The types of signatures and members -/

namespace Parser

section

variable {I : Buffer → Prop} [Buffer.IsInvariant I] {inner : Level} [inner.Keeps I]
  {P : TypeExpr → Prop} (h : Gives I inner.typeExpr P)

include h

theorem types_typeParameters : Gives I (typeParameters inner) fun typeParameters =>
    ∀ t ∈ signatureTypes typeParameters [], P t := by
  have hparameter : Gives I (typeParameter inner) fun p => ∀ t ∈ p.types, P t := by
    unfold typeParameter
    refine .spanned (.behind fun name => ?_)
    refine h.after.bind fun constraint hconstraint => ?_
    refine h.after.bind fun fallback hfallback => .pure fun span t ht => ?_
    rcases List.mem_append.1 ht with ht | ht
    · exact hconstraint t (Option.mem_toList.1 ht)
    · exact hfallback t (Option.mem_toList.1 ht)
  refine (Gives.after (Gives.commaList hparameter)).mono fun typeParameters hps t ht => ?_
  rw [signatureTypes, List.flatMap_nil, List.append_nil] at ht
  obtain ⟨p, hp, ht⟩ := List.mem_flatMap.1 ht
  exact forall_mem_getD hps p hp t ht

theorem types_parameters : Gives I (parameters inner) fun parameters =>
    ∀ t ∈ parameters.flatMap (·.type.toList), P t := by
  have hparameter : Gives I (parameter inner) fun p => ∀ t ∈ p.type, P t := by
    unfold parameter
    refine .spanned (.behind fun rest => .behind fun t => .behind fun optional => ?_)
    exact h.after.bind fun type htype => .pure fun span => htype
  unfold parameters
  refine .behind fun _ => (Gives.commaList hparameter).mono fun ps hps t ht => ?_
  obtain ⟨p, hp, ht⟩ := List.mem_flatMap.1 ht
  exact hps p hp t (Option.mem_toList.1 ht)

/-- Type parameters and parameters, with what is read behind them. -/
theorem Gives.signature {β : Type} {f : Option (List TypeParameter) → List Parameter → Parser β}
    {Q : β → Prop} (hf : ∀ typeParameters parameters,
      (∀ t ∈ signatureTypes typeParameters parameters, P t) →
      Gives I (f typeParameters parameters) Q) :
    Gives I (do
      let typeParameters ← typeParameters inner
      let parameters ← parameters inner
      f typeParameters parameters) Q := by
  refine (types_typeParameters h).bind fun tps htps => ?_
  refine (types_parameters h).bind fun ps hps => hf tps ps ?_
  rw [signatureTypes_eq_append, List.forall_mem_append]
  exact ⟨htps, hps⟩

/-- A member that has the types of a signature and of its result. -/
theorem types_signatureMember
    {make : Option (List TypeParameter) → List Parameter → Option TypeExpr → Span → Member}
    (hmake : ∀ typeParameters parameters result span,
      (make typeParameters parameters result span).types
        = signatureTypes typeParameters parameters ++ result.toList) :
    Gives I (do
      let typeParameters ← typeParameters inner
      let parameters ← parameters inner
      let result ← typeAfterColon inner
      return make typeParameters parameters result)
      fun make => ∀ span, ∀ t ∈ (make span).types, P t := by
  refine .signature h fun tps ps hps => h.after.bind fun result hresult => ?_
  refine .pure fun span => ?_
  rw [hmake, List.forall_mem_append]
  exact ⟨hps, by simpa using hresult⟩

theorem types_indexSignature (readonly : Bool) : Gives I (indexSignature inner readonly)
    fun make => ∀ span, ∀ t ∈ (make span).types, P t := by
  unfold indexSignature
  refine .behind fun _ => .behind fun name => .behind fun _ => ?_
  refine h.bind fun parameterType hparameterType => .behind fun _ => .behind fun _ => ?_
  refine h.bind fun type htype => .pure fun span => ?_
  simpa [Member.types] using ⟨hparameterType, htype⟩

theorem types_keyed {initial : Option (Parser TypeExpr)} (hinitial : ∀ p ∈ initial, Keeps I p)
    (readonly : Bool) (next : Token × Token × Token) :
    Gives I (memberList.keyed inner initial readonly next)
      fun make => ∀ span, ∀ t ∈ (make span).types, P t := by
  obtain ⟨a, b, c⟩ := next
  unfold memberList.keyed
  refine .ite (types_indexSignature h readonly) ?_
  refine .behind fun key => .behind fun optional => .behind fun kind => .ite ?_ ?_
  · exact types_signatureMember h fun _ _ _ _ => rfl
  · refine h.after.bind fun type htype => ?_
    have htypes : ∀ t ∈ type.toList, P t := by simpa using htype
    cases initial with
    | none => exact .pure fun span => htypes
    | some p =>
      have hp : Keeps I p := hinitial p rfl
      exact .behind fun _ => .pure fun span => htypes

theorem types_member {initial : Option (Parser TypeExpr)} (hinitial : ∀ p ∈ initial, Keeps I p) :
    Gives I (memberList.member inner initial)
      fun make => ∀ span, ∀ t ∈ (make span).types, P t := by
  unfold memberList.member
  extract_lets unmodified
  have hunmodified : ∀ r, Gives I (unmodified r)
      fun make => ∀ span, ∀ t ∈ (make span).types, P t := by
    intro r
    refine .behind fun next => ?_
    obtain ⟨a, b, c⟩ := next
    refine .ite (types_signatureMember h fun _ _ _ _ => rfl) (.ite ?_ (.ite ?_ ?_))
    · exact .behind fun _ => types_signatureMember h fun _ _ _ _ => rfl
    · exact .behind fun _ => .behind fun next => types_keyed h hinitial true next
    · exact types_keyed h hinitial false _
  clear_value unmodified
  cases initial with
  | none => exact hunmodified ()
  | some p => exact .behind fun _ => hunmodified _

theorem types_memberList {initial : Option (Parser TypeExpr)}
    (hinitial : ∀ p ∈ initial, Keeps I p) : Gives I (memberList inner initial)
      fun members => ∀ t ∈ members.flatMap Member.types, P t := by
  have hkeeps : Keeps I (memberList.member inner initial) := keeps_member hinitial
  have hend : ∀ m members, Keeps I (Twin.memberEnd m members) := by
    intro m members
    unfold Twin.memberEnd
    dsimp only
    infer_instance
  have hstep : ∀ members, Keeps I (Twin.memberStep inner initial members) := by
    intro members
    unfold Twin.memberStep
    infer_instance
  rw [Twin.memberList_eq]
  refine .behind fun _ => .bind (.repeatFrom
    (P := fun members => ∀ t ∈ members.flatMap Member.types, P t)
    (fun members hmembers => ?_) (by simp)) fun members hmembers => .pure (by simpa using hmembers)
  unfold Twin.memberStep
  refine .behind fun _ => .behind fun closed => .ite (.pure hmembers) ?_
  have hmember := types_member h hinitial
  refine .bind (P := fun m => ∀ t ∈ m.types, P t) (.spanned hmember) fun m hm => ?_
  have hmore : ∀ t ∈ (m :: members).flatMap Member.types, P t := by
    rw [List.flatMap_cons, List.forall_mem_append]
    exact ⟨hm, hmembers⟩
  unfold Twin.memberEnd
  refine .behind fun _ => .ite (.pure hmore) (.behind fun _ => .ite (.pure hmore) ?_)
  exact .behind fun t => .ite (.behind fun _ => .pure hmore) (.pure hmore)

theorem types_typeMembers : Gives I (typeMembers inner)
    fun members => ∀ t ∈ members.flatMap Member.types, P t :=
  types_memberList h (by simp)

theorem types_classMembers : Gives I (classMembers inner)
    fun members => ∀ t ∈ members.flatMap Member.types, P t := by
  refine types_memberList h fun p hp => ?_
  obtain rfl := Option.some.inj hp
  infer_instance

end

/-! ## The parts of declarations -/

section

variable {I : Buffer → Prop} [Buffer.IsInvariant I] {R : Node → Prop}

section

variable {types : Level} [types.Keeps I] (htypes : Gives I types.typeExpr fun t => R (.type t))

include htypes

theorem inside_variableDeclaration (exported : Export) :
    Gives I (variableDeclaration types exported) fun d => ∀ part ∈ d.inside, R part := by
  unfold variableDeclaration
  refine .spanned (.behind fun _ => .behind fun _ => ?_)
  refine htypes.after.bind fun type htype => .behind fun _ => .pure fun span => ?_
  exact List.forall_mem_map.2 (by simpa using htype)

theorem inside_functionDeclaration (exported : Export) :
    Gives I (functionDeclaration types exported) fun d => ∀ part ∈ d.inside, R part := by
  unfold functionDeclaration
  refine .spanned (.behind fun _ => .behind fun _ => .signature htypes fun tps ps hps => ?_)
  refine htypes.after.bind fun result hresult => .behind fun _ => .pure fun span => ?_
  exact List.forall_mem_map.2 (List.forall_mem_append.2 ⟨hps, by simpa using hresult⟩)

theorem inside_typeAliasDeclaration (exported : Export) :
    Gives I (typeAliasDeclaration types exported) fun d => ∀ part ∈ d.inside, R part := by
  unfold typeAliasDeclaration
  refine .spanned (.behind fun _ => .behind fun _ => ?_)
  refine (types_typeParameters htypes).bind fun tps htps => .behind fun _ => ?_
  refine htypes.bind fun aliased haliased => .behind fun _ => .pure fun span => ?_
  exact List.forall_mem_map.2 (List.forall_mem_append.2 ⟨htps, by simpa using haliased⟩)

variable (hreference : Gives I (typeReference types) fun t => R (.type t))

include hreference

theorem inside_interfaceDeclaration (exported : Export) :
    Gives I (interfaceDeclaration types exported) fun d => ∀ part ∈ d.inside, R part := by
  unfold interfaceDeclaration
  refine .spanned (.behind fun _ => .behind fun _ => ?_)
  refine (types_typeParameters htypes).bind fun tps htps => ?_
  refine (Gives.after (Gives.separated hreference)).bind fun bases hbases => ?_
  refine (types_typeMembers htypes).bind fun members hmembers => .pure fun span => ?_
  refine List.forall_mem_map.2 (List.forall_mem_append.2 ⟨htps, List.forall_mem_append.2 ⟨?_, ?_⟩⟩)
  · exact forall_mem_getD hbases
  · exact hmembers

theorem inside_classDeclaration (exported : Export) :
    Gives I (classDeclaration types exported) fun d => ∀ part ∈ d.inside, R part := by
  unfold classDeclaration
  refine .spanned (.behind fun _ => .behind fun _ => .behind fun _ => ?_)
  refine (types_typeParameters htypes).bind fun tps htps => ?_
  refine hreference.after.bind fun base hbase => ?_
  refine (Gives.after (Gives.separated hreference)).bind fun interfaces hinterfaces => ?_
  refine (types_classMembers htypes).bind fun members hmembers => .pure fun span => ?_
  refine List.forall_mem_map.2 (List.forall_mem_append.2 ⟨htps, List.forall_mem_append.2 ⟨?_,
    List.forall_mem_append.2 ⟨?_, ?_⟩⟩⟩)
  · simpa using hbase
  · exact forall_mem_getD hinterfaces
  · exact hmembers

end

section

variable {body : Parser (List Statement)} [Keeps I body]
  (hbody : Gives I body fun ss => R (.block ss))

include hbody

theorem inside_block : Gives I (block body) fun ss => R (.block ss) := by
  unfold block
  exact .behind fun _ => hbody.bind fun ss hss => .behind fun _ => .pure hss

theorem inside_moduleDeclaration :
    Gives I (moduleDeclaration body) fun d => ∀ part ∈ d.inside, R part := by
  have hmoduleBody : Gives I (moduleDeclaration.moduleBody body) fun o =>
      ∀ ss ∈ o, R (.block ss) := by
    unfold moduleDeclaration.moduleBody
    refine .behind fun kind => .ite ?_ (.behind fun _ => .pure (by simp))
    exact (inside_block hbody).bind fun ss hss => .pure (by simpa using hss)
  unfold moduleDeclaration
  refine .spanned (.behind fun _ => .behind fun _ => ?_)
  refine hmoduleBody.bind fun statements hstatements => .pure fun span => ?_
  exact List.forall_mem_map.2 (by simpa using hstatements)

theorem inside_namespaceDeclaration (exported : Export) :
    Gives I (namespaceDeclaration body exported) fun d => ∀ part ∈ d.inside, R part := by
  unfold namespaceDeclaration
  refine .spanned (.behind fun _ => .behind fun _ => ?_)
  exact (inside_block hbody).bind fun ss hss => .pure fun span => List.forall_mem_singleton.2 hss

theorem inside_globalDeclaration :
    Gives I (globalDeclaration body) fun d => ∀ part ∈ d.inside, R part := by
  unfold globalDeclaration
  refine .spanned (.behind fun _ => ?_)
  exact (inside_block hbody).bind fun ss hss => .pure fun span => List.forall_mem_singleton.2 hss

end

/-- What holds of all types and blocks that are read holds of the parts of every declaration. -/
theorem givesDeclarations_inside {types : Level} [types.Keeps I]
    {body : Parser (List Statement)} [Keeps I body]
    (htypes : Gives I types.typeExpr fun t => R (.type t))
    (hreference : Gives I (typeReference types) fun t => R (.type t))
    (hbody : Gives I body fun ss => R (.block ss)) :
    GivesDeclarations I types body fun d => ∀ part ∈ d.inside, R part where
  bare d hd := by simp [Declaration.inside_of_isBare hd]
  ofModule := inside_moduleDeclaration hbody
  ofNamespace := inside_namespaceDeclaration hbody
  ofGlobal := inside_globalDeclaration hbody
  ofVariable := inside_variableDeclaration htypes
  ofFunction := inside_functionDeclaration htypes
  ofTypeAlias := inside_typeAliasDeclaration htypes
  ofInterface := inside_interfaceDeclaration htypes hreference
  ofClass := inside_classDeclaration htypes hreference

end

end Parser

end Ambient
