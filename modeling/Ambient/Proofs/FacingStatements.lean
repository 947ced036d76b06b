import Ambient.Proofs.RoundTrip
import Ambient.Proofs.Writing
/-!
# Statements over words

Rules for the parsers of statements where words are faced, in the form of `Parser.Leaves`:
variables, modules and interfaces, blocks and files with a single statement. A text that is written
in the words of one statement is parsed as this statement and compiled like it
(`bindingsOf_of_written`).
-/

namespace Ambient

namespace Parser

variable {types : Level} {body : Parser (List Statement)} {ws rest : List Word}

/-! ## Parts of declarations -/

theorem leaves_nameWithSpan (n : String) :
    Leaves (Word.ofName n :: rest) rest nameWithSpan (·.2 = n) := by
  refine .requireWhere_bind rfl fun t ht => .pure ?_
  simp [Token.word, ht.text, Word.ofName]

theorem leaves_statementEnd : Leaves [] [] statementEnd fun _ => True := by
  unfold statementEnd
  refine .accept_of_ne (by decide) (.peek_bind fun t ht _ => ?_)
  rw [if_pos (by simp [ht, headKind])]
  exact .pure trivial

theorem leaves_statementEnd_semicolon :
    Leaves (Kind.semicolon.word :: rest) rest statementEnd fun _ => True :=
  .accept_of_eq rfl (.pure trivial)

theorem leaves_block {P : List Statement → Prop}
    (hbody : Leaves ws (Kind.braceClose.word :: rest) body P) :
    Leaves (Kind.braceOpen.word :: ws) rest (block body) P :=
  .require_bind rfl fun _ _ => .bind hbody fun _ hss => .require_bind rfl fun _ _ => .pure hss

theorem leaves_moduleName (value : String) :
    Leaves (Word.ofString value :: rest) rest moduleDeclaration.moduleName
      (·.2 = .string value) := by
  refine .peekKind_bind ?_
  rw [if_pos (by simp [headKind, Word.ofString])]
  exact .bind_pure (leaves_stringWithSpan value) fun _ h => congrArg ModuleName.string h

/-! ## Declarations -/

theorem leaves_variableDeclaration {n : String} {type : Option TypeExpr}
    (htype : ∀ t ∈ type.toList, types.Accepts t) (exported : Export) :
    Leaves (Kind.kwVar.word :: Word.ofName n ::
        (leadWords .colon type ++ Kind.semicolon.word :: rest)) rest
      (variableDeclaration types exported)
      (·.erase = .ofVariable ⟨.nowhere, exported, .asVar, .nowhere, n, eraseType? type⟩) := by
  obtain ⟨hcolon, -, -, htail⟩ := apart_of_semicolon (k := .semicolon) rfl
  refine .spanned (.bind (.consume _) fun word hword => ?_)
  rw [hword.kind]
  refine .bind (leaves_nameWithSpan n) fun name hname => ?_
  refine .bind (leaves_after_type htype hcolon htail) fun type' htype' => ?_
  refine .bind leaves_statementEnd_semicolon fun _ _ => .pure fun span => ?_
  simp [Declaration.erase, Variable.erase, hname, htype', Kind.word]

theorem leaves_interfaceDeclaration {n : String} {members : List Member}
    (hmembers : ∀ t ∈ members.flatMap Member.types, types.Accepts t) (exported : Export) :
    Leaves (Kind.kwInterface.word :: Word.ofName n :: Kind.braceOpen.word ::
        (memberWords members ++ Kind.braceClose.word :: rest)) rest
      (interfaceDeclaration types exported)
      (·.erase =
        .ofInterface ⟨.nowhere, exported, .nowhere, n, none, [], eraseMembers members⟩) := by
  refine .spanned (.require_bind rfl fun _ _ => .bind (leaves_nameWithSpan n) fun name hname => ?_)
  refine .bind (.after_of_ne (by simp [headKind, Kind.word]) _) fun parameters hparameters => ?_
  refine .bind (.after_of_ne (by simp [headKind, Kind.word]) _) fun bases hbases => ?_
  refine .bind (leaves_typeMembers hmembers) fun members' hmembers' => .pure fun span => ?_
  simp [Declaration.erase, Interface.erase, hname, hparameters, hbases, hmembers',
    eraseTypeParameters?, eraseTypes]

theorem leaves_moduleDeclaration {value : String} {ss : List Statement}
    (hbody : Leaves ws (Kind.braceClose.word :: rest) body (eraseStatements · = ss)) :
    Leaves (Kind.kwModule.word :: Word.ofString value :: Kind.braceOpen.word :: ws) rest
      (moduleDeclaration body)
      (·.erase = .ofModule .nowhere .nowhere (.string value) (some ss)) := by
  have hblock : Leaves (Kind.braceOpen.word :: ws) rest (moduleDeclaration.moduleBody body)
      (eraseStatements? · = some ss) := by
    refine .peekKind_bind ?_
    rw [if_pos (by simp [headKind, Kind.word])]
    exact .bind_pure (leaves_block hbody) fun _ h => congrArg some h
  refine .spanned (.require_bind rfl fun _ _ => ?_)
  refine .bind (leaves_moduleName value) fun name hname => ?_
  refine .bind_pure hblock fun statements hstatements span => ?_
  rw [Declaration.erase, hname, hstatements]

/-! ## Statements -/

theorem leaves_statement {P : Declaration → Prop}
    (hfirst : headKind ws ∉ [.semicolon, .kwImport, .kwExport])
    (h : Leaves ws rest (declaration types body .none) P) :
    Leaves ws rest (statement types body) fun s => P s.declaration := by
  have hcontent : Leaves ws rest (statementContent types body) P := by
    refine .peek2_bind fun a b ha _ => ?_
    rw [← ha] at hfirst
    dsimp only
    split
    · simp_all
    · simp_all
    · simp_all
    · exact h
  exact .spanned (.bind_pure hcontent fun _ hd _ => hd)

theorem leaves_statement_erase {d : Declaration}
    (hfirst : headKind ws ∉ [.semicolon, .kwImport, .kwExport])
    (h : Leaves ws rest (declaration types body .none) (·.erase = d)) :
    Leaves ws rest (statement types body) (·.erase = ⟨.nowhere, d⟩) := by
  refine (leaves_statement hfirst h).mono fun s hs => ?_
  cases s
  exact congrArg (Statement.mk .nowhere) hs

theorem leaves_variableStatement (n : String) (type : Option TypeExpr)
    (htype : ∀ t ∈ type.toList, types.Accepts t) :
    Leaves (Kind.kwVar.word :: Word.ofName n ::
        (leadWords .colon type ++ Kind.semicolon.word :: rest)) rest (statement types body)
      (·.erase = ⟨.nowhere,
        .ofVariable ⟨.nowhere, .none, .asVar, .nowhere, n, eraseType? type⟩⟩) := by
  refine leaves_statement_erase (by simp [headKind, Kind.word]) ?_
  refine .accept_of_ne (by simp [headKind, Kind.word]) (.peek2_bind fun a b ha _ => ?_)
  have hkind : a.kind = .kwVar := ha
  dsimp only
  rw [hkind]
  exact leaves_variableDeclaration htype .none

theorem leaves_interfaceStatement {n : String} {members : List Member}
    (hmembers : ∀ t ∈ members.flatMap Member.types, types.Accepts t) :
    Leaves (Kind.kwDeclare.word :: Kind.kwInterface.word :: Word.ofName n :: Kind.braceOpen.word ::
        (memberWords members ++ Kind.braceClose.word :: rest)) rest (statement types body)
      (·.erase = ⟨.nowhere,
        .ofInterface ⟨.nowhere, .none, .nowhere, n, none, [], eraseMembers members⟩⟩) := by
  refine leaves_statement_erase (by simp [headKind, Kind.word]) ?_
  refine .accept_of_eq rfl (.peek2_bind fun a b ha _ => ?_)
  have hkind : a.kind = .kwInterface := ha
  dsimp only
  rw [hkind]
  exact leaves_interfaceDeclaration hmembers .none

theorem leaves_moduleStatement {value : String} {ss : List Statement}
    (hbody : Leaves ws (Kind.braceClose.word :: rest) body (eraseStatements · = ss)) :
    Leaves (Kind.kwDeclare.word :: Kind.kwModule.word :: Word.ofString value ::
        Kind.braceOpen.word :: ws) rest (statement types body)
      (·.erase = ⟨.nowhere, .ofModule .nowhere .nowhere (.string value) (some ss)⟩) := by
  refine leaves_statement_erase (by simp [headKind, Kind.word]) ?_
  refine .accept_of_eq rfl (.peek2_bind fun a b ha hb => ?_)
  have hkind : a.kind = .kwModule := ha
  have hname : b.kind = .literalString := hb
  dsimp only
  rw [hkind, hname]
  exact leaves_moduleDeclaration hbody

theorem leaves_statements_single {P : Statement → Prop} {close : Kind}
    (hfirst : headKind ws ≠ close) (hlast : headKind rest = close)
    (hlength : rest.length < ws.length) (h : Leaves ws rest (statement types body) P) :
    Leaves ws rest (statements types body close) fun ss => ∃ s, ss = [s] ∧ P s := by
  refine .collect_single (.peekKind_bind ?_) hlength (.peekKind_bind ?_)
  · rw [if_neg (by simpa using hfirst)]
    exact .bind_pure h fun s hs => ⟨s, rfl, hs⟩
  · rw [if_pos (by simpa using hlast)]
    exact .pure rfl

theorem leaves_file_single {P : Statement → Prop} {room : Nat} (hfirst : headKind ws ≠ .endOfFile)
    (h : Leaves ws [] (statement (Level.ofRoom room) (blockBody Level.ofRoom room)) P) :
    Leaves ws [] (file Level.ofRoom room) fun file => ∃ s, file.body = [s] ∧ P s := by
  have hlength : 0 < ws.length := by
    cases ws with
    | nil => exact absurd rfl hfirst
    | cons w ws => simp
  have hstatements : Leaves ws []
      (statements (Level.ofRoom room) (blockBody Level.ofRoom room) .endOfFile)
      fun ss => ∃ s, ss = [s] ∧ P s := leaves_statements_single hfirst rfl hlength h
  refine .bind hstatements fun ss hss => ?_
  refine .bind .require_end fun _ _ => ?_
  exact .bind (P := fun _ => True) (fun b hb => ⟨_, b, rfl, hb, trivial⟩) fun span _ => .pure hss

end Parser

/-- A text that is written in the words of one statement is compiled like this statement, wherever
its parts stand. -/
theorem bindingsOf_of_written {source : String} {ws : List Word} {s : Statement}
    (hsource : Written source.toList ws) (hfirst : headKind ws ≠ .endOfFile)
    (h : Parser.Leaves ws [] (Parser.statement (Level.ofRoom maxNesting)
      (Parser.blockBody Level.ofRoom maxNesting)) (·.erase = s)) :
    Compiled.Alike Eq (bindingsOf source) do return (← compileStatements .prelude [s]).1 := by
  obtain ⟨file, b, hrun, -, s', hbody, rfl⟩ :=
    Parser.leaves_file_single hfirst h _ (Buffer.faces_of_written hsource)
  have hparse : parse source = .ok file := by rw [parse, parseWithin, hrun]
  unfold bindingsOf
  rw [hparse]
  refine Compiled.Alike.bind_eq ?_ fun _ => .ok rfl
  rw [hbody]
  exact compileStatements_alike .prelude [s']

end Ambient
