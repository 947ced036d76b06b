import Ambient.Proofs.HaltingTypes
import Ambient.Proofs.LockstepStatements
import Ambient.Proofs.Parsers
/-!
# Parsing halts

The parsers of declarations and statements, of module bodies and of a whole file halt. So parsing
ends for every source text, with a file or an error, and the rounds of its repetitions never run out
(`parse_halts`).
-/

open Ambient.Parser

namespace Ambient

namespace Horizon

variable {H : Horizon} {i : Nat}

/-! ## Parts of declarations -/

theorem advances_dottedName : H.Advances H.stop H.last dottedName := by
  refine advances_name.bind fun first => steps_repeatFrom (b := H.last) (fun path i hi => ?_) _
  refine .accept_bind hi (by decide) (fun hlt => ?_) (.pure ⟨le_rfl, hi⟩)
  exact .requireWhere_bind hlt (by decide) fun hlt' => .pure ⟨by omega, hlt'⟩

theorem advances_block {body : Parser (List Statement)} (hbody : H.Steps H.stop H.stop body) :
    H.Advances H.last H.stop (block body) :=
  (advances_require (by decide)).bind fun _ => hbody.bind fun _ =>
    (advances_require (by decide)).steps.bind fun _ => steps_pure _

theorem advances_listedName : H.Advances H.stop H.last listedName :=
  advances_spanned ((advances_requireWhere (by decide)).bind fun _ =>
    (steps_after (by decide) advances_name.steps).bind fun _ => steps_pure _)

theorem advances_listedNames : H.Advances H.last H.stop listedNames :=
  (advances_require (by decide)).bind fun _ => steps_commaList (by decide) advances_listedName

theorem advances_enumValue : H.Advances H.last H.stop enumValue := by
  intro i hi
  refine .behind (.bind (.peek (by omega)) (.pure _)) ?_
  split
  · exact (advances_string i hi).bind fun _ j hj => .pure hj
  · rename_i hkind
    exact (halts_negativeNumber hi hkind).bind fun _ j hj => .pure hj
  · exact (advances_number i hi).bind fun _ j hj => .pure hj

theorem advances_enumMember : H.Advances H.stop H.last enumMember := by
  have hlast := H.stop_le_last
  refine advances_spanned fun i hi => .behind (.bind (.peek (by omega)) (.pure _)) ?_
  extract_lets rest
  have hvalue : H.Steps H.stop H.last enumValue := fun i hi =>
    advances_enumValue.steps.loosen i (by omega)
  have hrest : ∀ name, H.Steps H.last H.last (rest name) := fun name =>
    (steps_after (by decide) hvalue).bind fun _ => steps_pure _
  clear_value rest
  refine .ite (fun _ => ?_) fun _ => advances_name.bind hrest i hi
  exact advances_string.bind hrest i (by omega)

/-! ## Declarations -/

section

variable {body : Parser (List Statement)} (hbody : H.Steps H.stop H.stop body)
include hbody

theorem advances_moduleDeclaration : H.Advances H.stop H.stop (moduleDeclaration body) := by
  have hlast := H.stop_le_last
  have hname : H.Advances H.stop H.last moduleDeclaration.moduleName := by
    refine fun i hi => .behind (.bind (.peek (by omega)) (.pure _)) (.ite (fun _ => ?_) fun _ => ?_)
    · exact (advances_stringWithSpan i (by omega)).bind fun _ j hj => .pure (by omega)
    · refine .behind .checkpoint ((advances_dottedName i hi).bind fun path j hj => ?_)
      exact .behind (.since hj.1) (.pure hj)
  have hmodule : H.Steps H.last H.stop (moduleDeclaration.moduleBody body) := by
    refine fun i hi => .behind (.bind (.peek (by omega)) (.pure _)) (.ite (fun _ => ?_) fun _ => ?_)
    · exact ((advances_block hbody).steps.bind fun _ => steps_pure _) i hi
    · exact (steps_statementEnd.bind fun _ => steps_pure _) i hi
  exact fun i hi => advances_spanned ((advances_require (by decide)).bind fun _ =>
    hname.steps.bind fun _ => hmodule.bind fun _ => steps_pure _) i (by omega)

theorem advances_namespaceDeclaration (exported : Export) :
    H.Advances H.last H.stop (namespaceDeclaration body exported) :=
  advances_spanned ((advances_require (by decide)).bind fun _ =>
    advances_dottedName.steps.bind fun _ => (advances_block hbody).steps.bind fun _ => steps_pure _)

theorem advances_globalDeclaration : H.Advances H.last H.stop (globalDeclaration body) :=
  advances_spanned ((advances_require (by decide)).bind fun _ =>
    (advances_block hbody).steps.bind fun _ => steps_pure _)

end

section

variable {types : Level} (htypes : types.Halts H) (exported : Export)
include htypes

/-- The word that declares the variable must come next. -/
theorem halts_variableDeclaration (hi : i ≤ H.last) (hkind : (H.token i).kind.IsFirm) :
    H.Halts i (variableDeclaration types exported) fun _ j => i < j ∧ j ≤ H.stop := by
  refine .spanned (.consume_firm_bind hi hkind fun hlt => ?_)
  refine (advances_nameWithSpan (i + 1) hlt).bind fun x j hj => ?_
  refine (steps_typeAfterColon htypes j hj.2).bind fun type k hk => ?_
  refine (steps_statementEnd k hk.2).bind fun _ l hl => .pure (by omega)

theorem advances_functionDeclaration :
    H.Advances H.last H.stop (functionDeclaration types exported) :=
  advances_spanned ((advances_require (by decide)).bind fun _ =>
    advances_nameWithSpan.steps.bind fun _ => (steps_typeParameters htypes).bind fun _ =>
    (advances_parameters htypes).steps.bind fun _ => (steps_typeAfterColon htypes).bind fun _ =>
    steps_statementEnd.bind fun _ => steps_pure _)

theorem advances_typeAliasDeclaration :
    H.Advances H.last H.stop (typeAliasDeclaration types exported) :=
  advances_spanned ((advances_require (by decide)).bind fun _ =>
    advances_nameWithSpan.steps.bind fun _ => (steps_typeParameters htypes).bind fun _ =>
    (advances_require (by decide)).steps.bind fun _ => htypes.typeExpr.steps.bind fun _ =>
    steps_statementEnd.bind fun _ => steps_pure _)

theorem advances_interfaceDeclaration :
    H.Advances H.last H.stop (interfaceDeclaration types exported) :=
  advances_spanned ((advances_require (by decide)).bind fun _ =>
    advances_nameWithSpan.steps.bind fun _ => (steps_typeParameters htypes).bind fun _ =>
    (steps_after (by decide) (advances_separated (by decide)
      (readsType_typeReference htypes).advances).steps).bind fun _ =>
    (advances_typeMembers htypes).steps.bind fun _ => steps_pure _)

theorem advances_classDeclaration :
    H.Advances H.last H.stop (classDeclaration types exported) :=
  advances_spanned ((steps_accept (a := H.last) (by decide)).bind_advances fun _ =>
    (advances_require (by decide)).bind fun _ => advances_name.steps.bind fun _ =>
    (steps_typeParameters htypes).bind fun _ =>
    (steps_after (by decide) (readsType_typeReference htypes).advances.steps).bind fun _ =>
    (steps_after (by decide) (advances_separated (by decide)
      (readsType_typeReference htypes).advances).steps).bind fun _ =>
    (advances_classMembers htypes).steps.bind fun _ => steps_pure _)

end

theorem advances_enumDeclaration (exported : Export) :
    H.Advances H.last H.stop (enumDeclaration exported) :=
  advances_spanned ((steps_accept (a := H.last) (by decide)).bind_advances fun _ =>
    (advances_require (by decide)).bind fun _ => advances_name.steps.bind fun _ =>
    (advances_require (by decide)).steps.bind fun _ =>
    (steps_commaList (by decide) advances_enumMember).bind fun _ => steps_pure _)

/-! ## Imports and exports -/

theorem advances_importedNames (defaultName : Option String) :
    H.Advances H.last H.last (importedNames defaultName) := by
  refine fun i hi => .accept_bind hi (by decide) (fun hlt => ?_) ?_
  · have hlast := H.stop_le_last
    have hname : H.Advances H.last H.last (do
        let _ ← require .kwAs
        return ImportClause.mk defaultName (some (← name)) []) :=
      (advances_require (by decide)).bind fun _ => advances_name.steps.bind fun _ => steps_pure _
    exact (hname (i + 1) (by omega)).mono fun _ j hj => by omega
  · exact (advances_listedNames.bind fun _ => steps_pure _) i hi

theorem advances_importClause : H.Advances H.stop H.last importClause := by
  have hlast := H.stop_le_last
  refine fun i hi => .behind (.bind (.peek (by omega)) (.pure _)) (.ite (fun _ => ?_) fun _ => ?_)
  · refine (advances_name i hi).bind fun defaultName j hj => ?_
    refine .accept_bind hj.2 (by decide) (fun hlt => ?_) (.pure hj)
    exact (advances_importedNames _ (j + 1) (by omega)).mono fun _ k hk => by omega
  · exact advances_importedNames _ i (by omega)

theorem advances_importRest (typeOnly : Bool) :
    H.Advances H.stop H.stop (Twin.importRest typeOnly) := by
  have hlast := H.stop_le_last
  refine fun i hi => .behind (.bind (.peek (by omega)) (.pure _)) (.ite (fun _ => ?_) fun _ => ?_)
  · exact (advances_string.bind fun _ => steps_statementEnd.bind fun _ => steps_pure _) i (by omega)
  · exact (advances_importClause.bind fun _ => (advances_require (by decide)).steps.bind fun _ =>
      advances_string.steps.bind fun _ => steps_statementEnd.bind fun _ => steps_pure _) i hi

theorem advances_importStatement : H.Advances H.last H.stop importStatement := by
  have hlast := H.stop_le_last
  refine advances_spanned fun i hi => .require_bind hi (by decide) fun hlt => ?_
  refine .behind (.peek2 (by omega)) (.ite (fun htype => ?_) fun _ => ?_)
  · have hkind : (H.token (i + 1)).kind = .kwType :=
      eq_of_beq (Bool.and_eq_true_iff.1 (Bool.and_eq_true_iff.1 htype).1).1
    refine .consume_firm_bind (by omega) (by rw [hkind]; decide) fun hlt => ?_
    exact (advances_importRest _ (i + 1 + 1) hlt).mono fun _ j hj => by omega
  · exact (advances_importRest _ (i + 1) hlt).mono fun _ j hj => by omega

theorem advances_exportAssignment : H.Advances H.last H.stop exportAssignment :=
  advances_spanned ((advances_require (by decide)).bind fun _ =>
    (advances_require (by decide)).steps.bind fun _ => advances_dottedName.steps.bind fun _ =>
    steps_statementEnd.bind fun _ => steps_pure _)

theorem advances_exportAsNamespace : H.Advances H.last H.stop exportAsNamespace :=
  advances_spanned ((advances_require (by decide)).bind fun _ =>
    (advances_require (by decide)).steps.bind fun _ =>
    (advances_require (by decide)).steps.bind fun _ => advances_name.steps.bind fun _ =>
    steps_statementEnd.bind fun _ => steps_pure _)

theorem advances_exportList : H.Advances H.last H.stop exportList := by
  have hlast := H.stop_le_last
  have hsource : H.Steps H.stop H.last string := fun i hi =>
    advances_string.steps.loosen i (by omega)
  exact advances_spanned ((advances_require (by decide)).bind fun _ =>
    (steps_accept (a := H.last) (by decide)).bind fun _ => advances_listedNames.steps.bind fun _ =>
    (steps_after (by decide) hsource).bind fun _ => steps_statementEnd.bind fun _ => steps_pure _)

/-! ## Statements -/

section

variable {types : Level} {body : Parser (List Statement)} (htypes : types.Halts H)
  (hbody : H.Steps H.stop H.stop body)
include htypes hbody

theorem advances_declaration (exported : Export) :
    H.Advances H.stop H.stop (declaration types body exported) := by
  have hlast := H.stop_le_last
  refine (steps_accept (by decide)).bind_advances (c := H.stop) fun declared i hi => ?_
  refine .behind (.peek2 (by omega)) ?_
  dsimp only
  have hunexpected : H.Halts i
      (failWith ((H.token i).unexpected (.expectedSyntax "declaration")) : Parser Declaration)
      fun _ j => i < j ∧ j ≤ H.stop := .fail (H.sound_unexpected i _) (by omega)
  have hvariable := halts_variableDeclaration htypes exported (show i ≤ H.last by omega)
  split
  · exact .ite (fun _ => advances_moduleDeclaration hbody i (by omega)) fun _ => hunexpected
  · exact advances_namespaceDeclaration hbody exported i (by omega)
  · exact .ite (fun _ => advances_globalDeclaration hbody i (by omega)) fun _ => hunexpected
  · rename_i hkind
    exact .ite (fun _ => advances_enumDeclaration exported i (by omega)) fun _ =>
      hvariable (by rw [hkind]; decide)
  · rename_i hkind
    exact hvariable (by rw [hkind]; decide)
  · rename_i hkind
    exact hvariable (by rw [hkind]; decide)
  · exact advances_functionDeclaration htypes exported i (by omega)
  · exact advances_typeAliasDeclaration htypes exported i (by omega)
  · exact advances_interfaceDeclaration htypes exported i (by omega)
  · exact advances_classDeclaration htypes exported i (by omega)
  · exact advances_classDeclaration htypes exported i (by omega)
  · exact advances_enumDeclaration exported i (by omega)
  · exact hunexpected

theorem advances_statementContent : H.Advances H.stop H.stop (statementContent types body) := by
  intro i hi
  have hlast := H.stop_le_last
  refine .behind (.peek2 (by omega)) ?_
  dsimp only
  split
  · rename_i hkind
    refine .spanned (.consume_firm_bind (by omega) (by rw [hkind]; decide) fun hlt => ?_)
    exact .pure ⟨by omega, by omega, hlt⟩
  · exact advances_importStatement i (by omega)
  · rename_i hkind
    have hfirm : (H.token i).kind.IsFirm := by rw [hkind]; decide
    have hnamed : H.Halts i (do let _ ← consume; declaration types body .named)
        fun _ j => i < j ∧ j ≤ H.stop := by
      refine .consume_firm_bind (by omega) hfirm fun hlt => ?_
      exact (advances_declaration htypes hbody .named (i + 1) hlt).mono fun _ j hj => by omega
    split
    · exact advances_exportAssignment i (by omega)
    · exact advances_exportAsNamespace i (by omega)
    · exact advances_exportList i (by omega)
    · refine .behind (.peek3 (by omega)) ?_
      exact .ite (fun _ => advances_exportList i (by omega)) fun _ => hnamed
    · rename_i hdefault
      refine .consume_firm_bind (by omega) hfirm fun hlt => ?_
      rw [succ_eq hfirm.1] at hdefault
      refine .consume_firm_bind (by omega) (by rw [hdefault]; decide) fun hlt => ?_
      exact (advances_declaration htypes hbody .default (i + 1 + 1) hlt).mono fun _ j hj => by omega
    · exact hnamed
  · exact advances_declaration htypes hbody .none i hi

theorem steps_statements (close : Kind) : H.Steps H.stop H.stop (statements types body close) := by
  have hlast := H.stop_le_last
  refine steps_collect fun i hi => .behind (.bind (.peek (by omega)) (.pure _)) ?_
  refine .ite (fun _ => .pure ⟨le_rfl, hi, by simp⟩) fun _ => ?_
  have hstatement : H.Advances H.stop H.stop (statement types body) :=
    advances_spanned ((advances_statementContent htypes hbody).bind fun _ => steps_pure _)
  exact (hstatement i hi).bind fun _ j hj => .pure ⟨hj.1.le, hj.2, fun _ => hj.1⟩

end

theorem steps_blockBody {types : Nat → Level} (htypes : ∀ room, (types room).Halts H)
    (room : Nat) : H.Steps H.stop H.stop (blockBody types room) := by
  induction room with
  | zero =>
    have hlast := H.stop_le_last
    exact fun i hi => halts_tooDeep (by omega)
  | succ room ih => exact steps_statements (htypes room) ih _

/-- A file is read to the end of the text, so there is none where an empty identifier stands. -/
theorem halts_file {types : Nat → Level} (htypes : ∀ room, (types room).Halts H) (room : Nat) :
    H.Halts 0 (file types room) fun _ j => j ≤ H.stop ∧ H.last = H.stop := by
  have hlast := H.stop_le_last
  have hbody := steps_statements (htypes room) (steps_blockBody htypes room) .endOfFile
  refine (hbody 0 (Nat.zero_le _)).bind fun ss j hj => ?_
  unfold require
  rw [bind_assoc]
  refine .behind (.consume (by omega)) ?_
  have hsucc := Moves.succ_le H.scanner j
  by_cases hend : (H.token j).kind = .endOfFile
  · rw [if_pos (by simpa using hend), pure_bind, succ_endOfFile hend]
    refine .behind .sourceSpan (.pure ⟨hj.2, ?_⟩)
    rcases H.beyond with ⟨heq, -⟩ | ⟨-, hstuck⟩
    · exact heq
    · obtain rfl : j = H.stop := by
        by_contra hne
        exact kind_ne_endOfFile (show j < H.stop by omega) hend
      cases (hstuck _ le_rfl).1.symm.trans hend
  · rw [if_neg (by simpa using hend)]
    exact .fail_bind (H.sound_unexpected j _) (by omega)

end Horizon

/-! ## Files -/

section

variable {α : Type}

/-- The value or the error. -/
def Ending.result : Ending α → Except SyntaxError α
  | .ok a _ => .ok a
  | .fail e _ => .error e

/-- The number of tokens consumed. -/
def Ending.consumed : Ending α → Nat
  | .ok _ n | .fail _ n => n

/-- How the parser that gave this reply has ended. -/
def Reply.ending : Reply α → Ending α
  | .ok a b => .ok a b.cursor
  | .fail e b => .fail e b.cursor

theorem Horizon.Shows.ending {H : Horizon} {o : Ending α} {r : Reply α} (h : H.Shows o r) :
    r.ending = o ∧ r.buffer.seen.size ≤ H.last + 4 := by
  cases h with
  | ok hb => exact ⟨congrArg (Ending.ok _) hb.stands.cursor, hb.seen⟩
  | fail hb => exact ⟨congrArg (Ending.fail _) hb.stands.cursor, hb.seen⟩

end

theorem Horizon.holds_ofSource {H : Horizon} {source : String} {rounds : Nat}
    (hscanner : H.scanner = .ofSource source) (hsize : H.size = source.utf8ByteSize)
    (hrounds : H.last < rounds) :
    H.Holds 0 { Buffer.ofSource source with rounds := rounds } where
  stands := hscanner ▸ ⟨⟨rfl, (Buffer.tracks_ofSource source).seen⟩, rfl, Nat.zero_le _⟩
  size := hsize.symm
  rounds := hrounds
  seen := Nat.zero_le _

/-- Every run of the parser over a source text ends in one way. -/
theorem exists_ending (source : String) (room : Nat) : ∃ (H : Horizon) (ending : Ending File),
    H.scanner = .ofSource source ∧ H.stop ≤ source.utf8ByteSize ∧
    (∀ k, ((Scanner.ofSource source).token k).isStuck → H.stop ≤ k ∧ H.stop < H.last) ∧
    H.Meets (fun _ j => j ≤ H.stop ∧ H.last = H.stop) ending ∧
    ending.result = parseWithin room source ∧
    ∀ rounds, source.utf8ByteSize + 2 ≤ rounds →
      H.Shows ending (file Level.ofRoom room { Buffer.ofSource source with rounds := rounds }) := by
  obtain ⟨H, hscanner, hsize, hstop, hstuck⟩ := Horizon.exists_ofSource source
  obtain ⟨ending, hmeets, hshows⟩ := Horizon.halts_file (Level.halts_ofRoom H) room
  have hrun : ∀ rounds, source.utf8ByteSize + 2 ≤ rounds →
      H.Shows ending (file Level.ofRoom room { Buffer.ofSource source with rounds := rounds }) := by
    have hlast := H.last_le
    exact fun rounds hrounds => hshows _ (Horizon.holds_ofSource hscanner hsize (by omega))
  refine ⟨H, ending, hscanner, hstop, hstuck, hmeets, ?_, hrun⟩
  have hparse := (hrun (source.utf8ByteSize + 4) (by omega)).ending.1
  change (file Level.ofRoom room (Buffer.ofSource source)).ending = ending at hparse
  rw [← hparse, parseWithin]
  cases file Level.ofRoom room (Buffer.ofSource source) <;> rfl

/-- The error of a text that does not parse is about its tokens. -/
theorem sound_of_parse {source : String} {room : Nat} {e : SyntaxError}
    (h : parseWithin room source = .error e) :
    ∃ H : Horizon, H.scanner = .ofSource source ∧ H.Sound e := by
  obtain ⟨H, ending, hscanner, -, -, hmeets, hresult, -⟩ := exists_ending source room
  cases ending with
  | ok f n => cases hresult.trans h
  | fail e' n =>
    cases hresult.trans h
    exact ⟨H, hscanner, hmeets.1⟩

/-- Parsing ends in the same way however many rounds its repetitions are allowed, if they are two
more than the text has bytes, and never for want of rounds. The tokens with text are no more than
the bytes. Where they end, at most two more tokens are consumed and five are read from the text, and
if there is an empty identifier, parsing fails. -/
theorem parse_halts (source : String) (room : Nat) : ∃ (stop : Nat) (ending : Ending File),
    stop ≤ source.utf8ByteSize ∧
    (∀ k, ((Scanner.ofSource source).token k).isStuck →
      stop ≤ k ∧ ∃ e, parseWithin room source = .error e) ∧
    (∀ rounds, source.utf8ByteSize + 2 ≤ rounds →
      let reply := file Level.ofRoom room { Buffer.ofSource source with rounds := rounds }
      reply.ending = ending ∧ reply.buffer.seen.size ≤ stop + 5) ∧
    ending.consumed ≤ stop + 2 ∧ ending.result = parseWithin room source ∧
    parseWithin room source ≠ .error spent := by
  obtain ⟨H, ending, -, hstop, hstuck, hmeets, hresult, hrun⟩ := exists_ending source room
  have hlast := H.last_le
  refine ⟨H.stop, ending, hstop, fun k hk => ⟨(hstuck k hk).1, ?_⟩, fun rounds hrounds => ?_, ?_,
    hresult, fun h => ?_⟩
  · cases ending with
    | ok f n =>
      have hends := (hstuck k hk).2
      have hle : H.last = H.stop := hmeets.2
      omega
    | fail e n => exact ⟨e, hresult.symm⟩
  · obtain ⟨hending, hseen⟩ := (hrun rounds hrounds).ending
    exact ⟨hending, by omega⟩
  · cases ending with
    | ok f n => exact Nat.le_add_right_of_le hmeets.1
    | fail e n =>
      have hn : n ≤ H.last + 1 := hmeets.2
      change n ≤ _
      omega
  · obtain ⟨H', -, hsound⟩ := sound_of_parse h
    exact hsound.genuine rfl

/-- The name of a variable is an empty identifier, and another one comes behind it. -/
theorem parse_halts_wideSpace : ((Scanner.ofSource "var \u3000").token 1).isStuck ∧
    ∃ e, parseWithin 100 "var \u3000" = .error e ∧ e ≠ spent ∧ ∃ n ≤ 3,
      (file Level.ofRoom 100 { Buffer.ofSource "var \u3000" with rounds := 9 }).ending
        = .fail e n := by
  have hfirst : ((Scanner.ofSource "var \u3000").token 1).isStuck := by decide +kernel
  have hsize : "var \u3000".utf8ByteSize = 7 := by decide +kernel
  obtain ⟨stop, ending, -, hstuck, hrun, hconsumed, hresult, hspent⟩ :=
    parse_halts "var \u3000" 100
  obtain ⟨hstop, e, he⟩ := hstuck 1 hfirst
  rw [he] at hresult hspent
  refine ⟨hfirst, e, he, fun h => hspent (congrArg _ h), ending.consumed, by omega, ?_⟩
  rw [(hrun 9 (by omega)).1]
  cases ending with
  | ok f n => cases hresult
  | fail e' n =>
    cases hresult
    rfl

end Ambient
