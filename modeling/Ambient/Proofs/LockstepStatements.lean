import Ambient.Proofs.LockstepTypes
/-!
# Statements in lockstep

The parsers of declarations and statements, of module bodies and of a whole file, over two streams
at once. Two source texts over a pair of streams are both parsed, into statements at the same
tokens, or neither is (`Twin.parse_parse`).
-/

open Ambient.Parser

namespace Ambient

open Located (outlines erase)

instance : Located ImportClause :=
  ⟨fun c => outlines c.names, fun c => { c with names := erase c.names }⟩

theorem Same.eq_of_option {α : Type} [Located α] {s : Scanner} {i j : Nat} {x x' : Option α}
    (h : Same s i j x x') (hplain : ∀ a : α, erase a = a) : x = x' := by
  have hmap : (erase : α → α) = id := funext hplain
  have herased : Option.map erase x = Option.map erase x' := h.erased
  simpa [hmap] using herased

namespace Twin

variable {T : Twin} {i : Nat}

/-! ## Parts of declarations -/

theorem reads_dottedName : T.Reads dottedName := by
  intro i
  refine reads_name.bind fun j first first' hij hfirst => ?_
  obtain rfl : first = first' := hfirst.erased
  refine runs_repeatFrom (I := fun j a a' => i < j ∧ a = a') (fun k path path' hpath => ?_)
    ⟨hij, rfl⟩
  obtain ⟨hik, rfl⟩ := hpath
  refine .accept_bind (by decide) (fun _ => ?_) fun _ => .pure (.done ⟨hik, .nil hik.le, rfl⟩)
  refine .requireWhere_bind (by decide) fun _ halike => .pure (.yield (by omega) ⟨by omega, ?_⟩)
  rw [halike.word]

theorem reads_block {body : Parser (List Statement)} (hbody : T.Passes body) :
    T.Reads (block body) := by
  intro i
  refine .require_bind (by decide) fun _ _ => hbody.bind fun j ss ss' hij hss => ?_
  refine .require_bind (by decide) fun _ _ => ?_
  exact .pure ⟨by omega, hss.mono (by omega)⟩

theorem reads_listedName : T.Reads listedName := by
  refine reads_spanned fun i => .requireWhere_bind (by decide) fun _ halike => ?_
  refine (reads_name.passes_after (by decide)).bind fun j newName newName' hij hname => ?_
  obtain rfl := hname.eq_of_option fun _ => rfl
  rw [halike.word]
  exact .pure ⟨by omega, .listedName (by omega)⟩

theorem reads_listedNames : T.Reads listedNames := by
  refine fun i => .require_bind (by decide) fun _ _ => ?_
  exact (reads_listedName.commaList (by decide)).runs_of_le (by omega)

theorem reads_enumValue : T.Reads enumValue := by
  intro i
  refine .peekKind_bind ?_
  split
  · refine reads_string.bind fun j value value' hij hvalue => .pure ⟨hij, .nil hij.le, ?_⟩
    exact congrArg EnumValue.string hvalue.erased
  · rename_i hkind
    refine (runs_negativeNumber hkind).bind fun j raw raw' _ hrun => ?_
    obtain ⟨hij, hraw⟩ := hrun
    exact .pure ⟨hij, .nil hij.le, congrArg EnumValue.number hraw.erased⟩
  · refine reads_number.bind fun j raw raw' hij hraw => .pure ⟨hij, .nil hij.le, ?_⟩
    exact congrArg EnumValue.number hraw.erased

theorem reads_enumMember : T.Reads enumMember := by
  refine reads_spanned fun i => .peekKind_bind ?_
  extract_lets rest
  have hrest : ∀ j name name', i < j → Same T.left i j name name' →
      T.Makes i j (rest name) (rest name') := by
    intro j name name' hij hname
    obtain rfl : name = name' := hname.erased
    refine (reads_enumValue.passes_after (by decide)).bind fun k value value' hjk hvalue => ?_
    obtain rfl := hvalue.eq_of_option fun _ => rfl
    exact .pure ⟨by omega, .enumMember (by omega)⟩
  clear_value rest
  exact .ite (fun _ => reads_string.bind hrest) fun _ => reads_name.bind hrest

/-! ## Declarations -/

theorem reads_moduleDeclaration {body : Parser (List Statement)} (hbody : T.Passes body) :
    T.Reads (moduleDeclaration body) := by
  have hname : T.Reads moduleDeclaration.moduleName := by
    refine fun i => .peekKind_bind (.ite (fun _ => ?_) fun _ => ?_)
    · refine reads_stringWithSpan.bind fun j x x' hij hx => .pure ⟨hij, ?_⟩
      exact ⟨hx.fits, Prod.ext rfl (congrArg ModuleName.string (Prod.ext_iff.1 hx.erased).2)⟩
    · refine .checkpoint_bind (reads_dottedName.bind fun j path path' hij hpath => ?_)
      obtain rfl : path = path' := hpath.erased
      refine .since_bind hij (.pure ⟨hij, ?_⟩)
      exact ⟨.leaf hij, rfl⟩
  have hmodule : T.Passes (moduleDeclaration.moduleBody body) := by
    refine fun i => .peekKind_bind (.ite (fun _ => ?_) fun _ => ?_)
    · exact (reads_block hbody).bind fun j ss ss' hij hss => .pure hss.some
    · exact passes_statementEnd.bind fun j _ _ hij _ => .pure (.none hij)
  refine reads_spanned fun i => .require_bind (by decide) fun _ _ => ?_
  refine hname.bind fun j x x' hij hx => ?_
  refine hmodule.bind fun k statements statements' hjk hstatements => ?_
  exact .pure ⟨by omega, hx.moduleDeclaration hstatements (by omega) (by omega)⟩

theorem reads_namespaceDeclaration {body : Parser (List Statement)} (hbody : T.Passes body)
    (exported : Export) : T.Reads (namespaceDeclaration body exported) := by
  refine reads_spanned fun i => .require_bind (by decide) fun _ _ => ?_
  refine reads_dottedName.bind fun j name name' hij hname => ?_
  obtain rfl : name = name' := hname.erased
  refine (reads_block hbody).bind fun k ss ss' hjk hss => ?_
  exact .pure ⟨by omega, hss.namespaceDeclaration (by omega)⟩

theorem reads_globalDeclaration {body : Parser (List Statement)} (hbody : T.Passes body) :
    T.Reads (globalDeclaration body) := by
  refine reads_spanned fun i => .require_bind (by decide) fun _ _ => ?_
  refine (reads_block hbody).bind fun j ss ss' hij hss => ?_
  exact .pure ⟨by omega, hss.globalDeclaration (by omega)⟩

section

variable {types : Level} (htypes : types.Reads T) (exported : Export)
include htypes

/-- The word that declares the variable must come next. -/
theorem runs_variableDeclaration (hkind : IsProper (T.kind i)) :
    T.Runs i (variableDeclaration types exported) (variableDeclaration types exported)
      fun j d d' => i < j ∧ Same T.left i j d d' := by
  refine Makes.spanned (.consume_bind hkind fun halike => ?_)
  rw [halike.kind]
  refine reads_nameWithSpan.bind fun j x x' hij hx => ?_
  refine (passes_typeAfterColon htypes).bind fun k type type' hjk htype => ?_
  refine passes_statementEnd.bind fun l _ _ hkl _ => ?_
  exact .pure ⟨by omega, hx.variableDeclaration htype (by omega)⟩

theorem reads_functionDeclaration : T.Reads (functionDeclaration types exported) := by
  refine reads_spanned fun i => .require_bind (by decide) fun _ _ => ?_
  refine reads_nameWithSpan.bind fun j x x' hij hx => ?_
  refine .signature_bind htypes fun k l m _ _ _ _ _ _ hjk hkl hlm htps hps hresult => ?_
  refine passes_statementEnd.bind fun n _ _ hmn _ => ?_
  exact .pure ⟨by omega, hx.functionDeclaration htps hps hresult (by omega)⟩

theorem reads_typeAliasDeclaration : T.Reads (typeAliasDeclaration types exported) := by
  refine reads_spanned fun i => .require_bind (by decide) fun _ _ => ?_
  refine reads_nameWithSpan.bind fun j x x' hij hx => ?_
  refine (passes_typeParameters htypes).bind fun k tps tps' hjk htps => ?_
  refine .require_bind (by decide) fun _ _ => ?_
  refine htypes.typeExpr.bind fun l body body' hkl hbody => ?_
  refine passes_statementEnd.bind fun m _ _ hlm _ => ?_
  exact .pure ⟨by omega, hx.typeAliasDeclaration htps hbody (by omega) (by omega)⟩

theorem reads_interfaceDeclaration : T.Reads (interfaceDeclaration types exported) := by
  refine reads_spanned fun i => .require_bind (by decide) fun _ _ => ?_
  refine reads_nameWithSpan.bind fun j x x' hij hx => ?_
  refine (passes_typeParameters htypes).bind fun k tps tps' hjk htps => ?_
  refine (((reads_typeReference htypes).separated (by decide)).passes_after (by decide)).bind
    fun l bases bases' hkl hbases => ?_
  refine (reads_typeMembers htypes).bind fun m members members' hlm hmembers => ?_
  exact .pure ⟨by omega, hx.interfaceDeclaration htps hbases.getD hmembers (by omega)⟩

theorem reads_classDeclaration : T.Reads (classDeclaration types exported) := by
  refine reads_spanned fun i => ?_
  refine Passes.bind (passes_accept (by decide)) fun j isAbstract isAbstract' hij habstract => ?_
  obtain rfl : isAbstract = isAbstract' := habstract.erased
  refine .require_bind (by decide) fun _ _ => reads_name.bind fun k name name' hjk hname => ?_
  obtain rfl : name = name' := hname.erased
  refine (passes_typeParameters htypes).bind fun l tps tps' hkl htps => ?_
  refine ((reads_typeReference htypes).passes_after (by decide)).bind
    fun m base base' hlm hbase => ?_
  refine (((reads_typeReference htypes).separated (by decide)).passes_after (by decide)).bind
    fun n interfaces interfaces' hmn hinterfaces => ?_
  refine (reads_classMembers htypes).bind fun o members members' hno hmembers => ?_
  exact .pure ⟨by omega, htps.classDeclaration hbase hinterfaces.getD hmembers (by omega)⟩

end

theorem reads_enumDeclaration (exported : Export) : T.Reads (enumDeclaration exported) := by
  refine reads_spanned fun i => ?_
  refine Passes.bind (passes_accept (by decide)) fun j isConst isConst' hij hconst => ?_
  obtain rfl : isConst = isConst' := hconst.erased
  refine .require_bind (by decide) fun _ _ => reads_name.bind fun k name name' hjk hname => ?_
  obtain rfl : name = name' := hname.erased
  refine .require_bind (by decide) fun _ _ => ?_
  refine (reads_enumMember.commaList (by decide)).bind fun l members members' hkl hmembers => ?_
  exact .pure ⟨by omega, hmembers.enumDeclaration (by omega)⟩

/-! ## Imports and exports -/

theorem same_importClause {s : Scanner} {j : Nat} {defaultName namespaceName : Option String}
    {names names' : List ListedName} (h : Same s i j names names') :
    Same s i j (ImportClause.mk defaultName namespaceName names)
      ⟨defaultName, namespaceName, names'⟩ :=
  ⟨h.fits, congrArg (ImportClause.mk defaultName namespaceName) h.erased⟩

theorem reads_importedNames (defaultName : Option String) :
    T.Reads (importedNames defaultName) := by
  refine fun i => .accept_bind (by decide) (fun _ => ?_) fun _ => ?_
  · refine .require_bind (by decide) fun _ _ => reads_name.bind fun j name name' hij hname => ?_
    obtain rfl : name = name' := hname.erased
    exact .pure ⟨by omega, same_importClause (.nil (by omega))⟩
  · refine reads_listedNames.bind fun j names names' hij hnames => ?_
    exact .pure ⟨hij, same_importClause hnames⟩

theorem reads_importClause : T.Reads importClause := by
  refine fun i => .peekKind_bind (.ite (fun _ => ?_) fun _ => reads_importedNames none i)
  refine reads_name.bind fun j name name' hij hname => ?_
  obtain rfl : name = name' := hname.erased
  refine .accept_bind (by decide) (fun _ => ?_) fun _ => ?_
  · exact (reads_importedNames _).runs_of_le (by omega)
  · exact .pure ⟨hij, same_importClause (.nil (by omega))⟩

/-- An import behind its first words. -/
def importRest (typeOnly : Bool) : Parser (Span → Declaration) := do
  if (← peekKind) == .literalString then
    let source ← string
    statementEnd
    return fun span => .importing
      { span, typeOnly, defaultName := none, namespaceName := none, names := [], source }
  else
    let clause ← importClause
    let _ ← require .kwFrom
    let source ← string
    statementEnd
    return fun span => .importing
      { span, typeOnly, defaultName := clause.defaultName, namespaceName := clause.namespaceName,
        names := clause.names, source }

theorem makes_importRest (typeOnly : Bool) {start : Nat} (hstart : start ≤ i) :
    T.Makes start i (importRest typeOnly) (importRest typeOnly) := by
  refine .peekKind_bind (.ite (fun _ => ?_) fun _ => ?_)
  · refine reads_string.bind fun j source source' hij hsource => ?_
    obtain rfl : source = source' := hsource.erased
    refine passes_statementEnd.bind fun k _ _ hjk _ => .pure ⟨by omega, ?_⟩
    exact .importing (.nil (show j ≤ k from hjk)) (by omega)
  · refine reads_importClause.bind fun j clause clause' hij hclause => ?_
    refine .require_bind (by decide) fun _ _ => ?_
    refine reads_string.bind fun k source source' hjk hsource => ?_
    obtain rfl : source = source' := hsource.erased
    refine passes_statementEnd.bind fun l _ _ hkl _ => .pure ⟨by omega, ?_⟩
    have hnames : Same T.left i j clause.names clause'.names :=
      ⟨hclause.fits, congrArg ImportClause.names hclause.erased⟩
    have hdefault := congrArg ImportClause.defaultName hclause.erased
    have hnamespace := congrArg ImportClause.namespaceName hclause.erased
    change clause.defaultName = clause'.defaultName at hdefault
    change clause.namespaceName = clause'.namespaceName at hnamespace
    rw [hdefault, hnamespace]
    exact hnames.importing (by omega)

theorem reads_importStatement : T.Reads importStatement := by
  refine reads_spanned fun i => .require_bind (by decide) fun _ _ => .peek2_bind fun ha hb => ?_
  dsimp only
  rw [← ha.kind, ← hb.kind]
  refine .ite (fun htype => ?_) fun _ => makes_importRest _ (Nat.le_succ i)
  have hkind : T.kind (i + 1) = .kwType :=
    eq_of_beq (Bool.and_eq_true_iff.1 (Bool.and_eq_true_iff.1 htype).1).1
  exact .consume_bind (isProper_of_eq hkind (by decide)) fun _ => makes_importRest _ (by omega)

theorem reads_exportAssignment : T.Reads exportAssignment := by
  refine reads_spanned fun i => .require_bind (by decide) fun _ _ => ?_
  refine .require_bind (by decide) fun _ _ => ?_
  refine reads_dottedName.bind fun j name name' hij hname => ?_
  obtain rfl : name = name' := hname.erased
  exact passes_statementEnd.bind fun k _ _ hjk _ => .pure ⟨by omega, .exportAssignment (by omega)⟩

theorem reads_exportAsNamespace : T.Reads exportAsNamespace := by
  refine reads_spanned fun i => ?_
  refine .require_bind (by decide) fun _ _ => .require_bind (by decide) fun _ _ => ?_
  refine .require_bind (by decide) fun _ _ => ?_
  refine reads_name.bind fun j name name' hij hname => ?_
  obtain rfl : name = name' := hname.erased
  exact passes_statementEnd.bind fun k _ _ hjk _ => .pure ⟨by omega, .exportAsNamespace (by omega)⟩

theorem reads_exportList : T.Reads exportList := by
  refine reads_spanned fun i => .require_bind (by decide) fun _ _ => ?_
  refine Passes.bind (passes_accept (by decide)) fun j typeOnly typeOnly' hij htypeOnly => ?_
  obtain rfl : typeOnly = typeOnly' := htypeOnly.erased
  refine reads_listedNames.bind fun k names names' hjk hnames => ?_
  refine (reads_string.passes_after (by decide)).bind fun l source source' hkl hsource => ?_
  obtain rfl := hsource.eq_of_option fun _ => rfl
  exact passes_statementEnd.bind fun m _ _ hlm _ => .pure ⟨by omega, hnames.exportList (by omega)⟩

/-! ## Statements -/

/-- The statement `st` was read from the tokens `i` up to `j` of the first stream. -/
def StatementAt (T : Twin) (types : Level) (body : Parser (List Statement)) (i j : Nat)
    (st : Statement) : Prop :=
  st.span = T.left.spanOf i j ∧ ∃ b b', b.At T.left T.stop i ∧ statement types body b = .ok st b' ∧
    b'.At T.left T.stop j

section

variable {types : Level} {body : Parser (List Statement)} (htypes : types.Reads T)
  (hbody : T.Passes body)
include htypes hbody

theorem reads_declaration (exported : Export) : T.Reads (declaration types body exported) := by
  intro start
  refine Passes.bind (passes_accept (by decide)) fun i declared declared' hi hdeclared => ?_
  obtain rfl : declared = declared' := hdeclared.erased
  refine .peek2_bind fun ha hb => ?_
  dsimp only
  rw [← ha.kind, ← hb.kind]
  have hunexpected : T.Runs i
      (failWith ((T.left.token i).unexpected (.expectedSyntax "declaration")) : Parser Declaration)
      (failWith ((T.right.token i).unexpected (.expectedSyntax "declaration")))
      fun j d d' => start < j ∧ Same T.left start j d d' := .fail (ha.unexpected _ _)
  have hvariable : IsProper (T.kind i) → T.Runs i (variableDeclaration types exported)
      (variableDeclaration types exported) fun j d d' => start < j ∧ Same T.left start j d d' :=
    fun hkind => (runs_variableDeclaration htypes exported hkind).mono
      fun j d d' _ ⟨hij, hd⟩ => ⟨by omega, hd.mono (by omega)⟩
  split
  · exact .ite (fun _ => (reads_moduleDeclaration hbody).runs_of_le (by omega)) fun _ => hunexpected
  · exact (reads_namespaceDeclaration hbody exported).runs_of_le (by omega)
  · exact .ite (fun _ => (reads_globalDeclaration hbody).runs_of_le (by omega)) fun _ => hunexpected
  · rename_i hkind
    exact .ite (fun _ => (reads_enumDeclaration exported).runs_of_le (by omega)) fun _ =>
      hvariable (isProper_of_eq hkind (by decide))
  · rename_i hkind
    exact hvariable (isProper_of_eq hkind (by decide))
  · rename_i hkind
    exact hvariable (isProper_of_eq hkind (by decide))
  · exact (reads_functionDeclaration htypes exported).runs_of_le (by omega)
  · exact (reads_typeAliasDeclaration htypes exported).runs_of_le (by omega)
  · exact (reads_interfaceDeclaration htypes exported).runs_of_le (by omega)
  · exact (reads_classDeclaration htypes exported).runs_of_le (by omega)
  · exact (reads_classDeclaration htypes exported).runs_of_le (by omega)
  · exact (reads_enumDeclaration exported).runs_of_le (by omega)
  · exact hunexpected

theorem reads_statementContent : T.Reads (statementContent types body) := by
  refine fun i => .peek2_bind fun ha hb => ?_
  dsimp only
  rw [← ha.kind, ← hb.kind]
  split
  · rename_i hkind
    refine Makes.spanned (.consume_bind (isProper_of_eq hkind (by decide)) fun _ => ?_)
    exact .pure ⟨by omega, .emptyStatement (by omega)⟩
  · exact reads_importStatement i
  · rename_i hkind
    have hnamed : T.Runs i (do let _ ← consume; declaration types body .named)
        (do let _ ← consume; declaration types body .named)
        fun j d d' => i < j ∧ Same T.left i j d d' :=
      .consume_bind (isProper_of_eq hkind (by decide)) fun _ =>
        (reads_declaration htypes hbody .named).runs_of_le (by omega)
    split
    · exact reads_exportAssignment i
    · exact reads_exportAsNamespace i
    · exact reads_exportList i
    · refine .peek3_bind fun ha hb hc => ?_
      dsimp only
      rw [hc.kind]
      exact .ite (fun _ => reads_exportList i) fun _ => hnamed
    · rename_i hdefault
      refine .consume_bind (isProper_of_eq hkind (by decide)) fun _ => ?_
      rw [next_eq (by simp [hkind])] at hdefault
      exact .consume_bind (isProper_of_eq hdefault (by decide)) fun _ =>
        (reads_declaration htypes hbody .default).runs_of_le (by omega)
    · exact hnamed
  · exact reads_declaration htypes hbody .none i

/-- A statement covers all tokens from the first to the last that it was read from. -/
theorem runs_statement : T.Runs i (statement types body) (statement types body) fun j st st' =>
    i < j ∧ Same T.left i j st st' ∧ st.span = T.left.spanOf i j := by
  refine .checkpoint_bind ?_
  simp only [bind_assoc, pure_bind]
  refine (reads_statementContent htypes hbody).bind fun j d d' hij hd => ?_
  exact .since_bind hij (.pure ⟨hij, hd.statement (by omega), rfl⟩)

theorem runs_statements (close : Kind) (i : Nat) :
    T.Runs i (statements types body close) (statements types body close) fun j =>
      Tiles (fun i j st st' => Same T.left i j st st' ∧ T.StatementAt types body i j st) i j := by
  refine runs_collect (fun i => .peekKind_bind (.ite (fun _ => .pure .none) fun _ => ?_)) i
  refine (runs_statement htypes hbody).recorded.bind fun j st st' _ hst => ?_
  obtain ⟨⟨hij, hsame, hspan⟩, hrun⟩ := hst
  exact .pure (.some hij ⟨hsame, hspan, hrun⟩)

theorem passes_statements (close : Kind) : T.Passes (statements types body close) := fun i =>
  (runs_statements htypes hbody close i).mono fun _ _ _ _ htiles =>
    (htiles.imp fun _ _ _ _ h => h.1).same

end

theorem passes_blockBody {types : Nat → Level} (htypes : ∀ room, (types room).Reads T)
    (room : Nat) : T.Passes (blockBody types room) := by
  induction room with
  | zero => exact reads_tooDeep.passes
  | succ room ih => exact passes_statements (htypes room) ih _

/-- A whole file, read to the end of both streams. -/
theorem runs_file {types : Nat → Level} (htypes : ∀ room, (types room).Reads T) (room : Nat) :
    T.Runs 0 (file types room) (file types room) fun j f f' => j = T.stop ∧
      f.span = ⟨0, width T.left.rest⟩ ∧
      Tiles (fun i j st st' => Same T.left i j st st' ∧
        T.StatementAt (types room) (blockBody types room) i j st) 0 j f.body f'.body := by
  refine (runs_statements (htypes room) (passes_blockBody htypes room) _ 0).bind
    fun j ss ss' _ hss => ?_
  refine .requireEnd_bind fun hstop => ?_
  intro b c hb hc
  refine .ok le_rfl .refl hb hc ⟨hstop, ?_, hss⟩
  change b.sourceSpan = _
  rw [Buffer.sourceSpan, hb.size]

end Twin

/-! ## Files -/

theorem Buffer.at_ofSource {source : String} {stop : Nat}
    (h : (Scanner.ofSource source).EndsAt stop) :
    (Buffer.ofSource source).At (Scanner.ofSource source) stop 0 where
  cursor := rfl
  scanner := rfl
  seen k hk := absurd hk (by simp [Buffer.ofSource])
  reached := Nat.zero_le _
  bound := Nat.zero_le _
  rounds := by
    have hlength := h.le_length
    have hwidth := length_le_width source.toList
    rw [width_toList] at hwidth
    change stop ≤ source.toList.length at hlength
    change stop < source.utf8ByteSize + 4
    omega
  size := (width_toList source).symm

/-- Statements at the tokens `i` up to `j` of both streams. -/
abbrev Twin.StatementsAt (T : Twin) : Nat → Nat → List Statement → List Statement → Prop :=
  Tiles fun i j st st' => Same T.left i j st st' ∧
    T.StatementAt (Level.ofRoom maxNesting) (blockBody Level.ofRoom maxNesting) i j st

/-- Two source texts over a pair of streams are both parsed, up to their ends and without passing an
invalid token, or neither is. -/
theorem Twin.parse_parse {T : Twin} {a b : String} (hleft : T.left = Scanner.ofSource a)
    (hright : T.right = Scanner.ofSource b) :
    (∃ f f', parse a = .ok f ∧ parse b = .ok f' ∧ T.Clean 0 T.stop ∧
      f.span = ⟨0, a.utf8ByteSize⟩ ∧ T.StatementsAt 0 T.stop f.body f'.body) ∨
    ∃ e e', parse a = .error e ∧ parse b = .error e' ∧ e.Alike T.SameEnd e' := by
  have hruns := Twin.runs_file (Level.reads_ofRoom T) maxNesting (Buffer.ofSource a)
    (Buffer.ofSource b) (hleft ▸ Buffer.at_ofSource (hleft ▸ T.endsAt))
    (hright ▸ Buffer.at_ofSource (hright ▸ T.endsAt_right))
  unfold parse parseWithin
  generalize file Level.ofRoom maxNesting (Buffer.ofSource a) = x at hruns
  generalize file Level.ofRoom maxNesting (Buffer.ofSource b) = y at hruns
  cases hruns with
  | fail he => exact .inr ⟨_, _, rfl, rfl, he⟩
  | ok _ hclean _ _ hfile =>
    obtain ⟨rfl, hspan, htiles⟩ := hfile
    rw [hleft] at hspan
    exact .inl ⟨_, _, rfl, rfl, hclean, hspan.trans (congrArg (Span.mk 0) (width_toList a)), htiles⟩

end Ambient
