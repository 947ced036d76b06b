import Ambient.Proofs.Parsers
import Mathlib.Tactic.Choose
/-!
# The course of a parser between its ways in

A parser of the grammar is handed the parsers for what lies one level of nesting further in. It
reads tokens of its own, calls one of them, goes on with what that gives, and so on to its end. What
it does between two calls does not depend on them, so from each buffer it takes the same `Course`
whatever lies further in, and by itself it never finds the nesting too deep. Every parser of the
grammar is `Charted` like this, found by instance search along the structure of the parser.
-/

namespace Ambient

/-! ## Courses -/

/-- The ways in: where a parser reads what lies one level of nesting further in. -/
inductive Passage where
  /-- A type in another one or in a declaration. -/
  | type
  /-- The operand of `keyof` or `readonly`. -/
  | operand
  /-- The statements of a block. -/
  | block

/-- What is read behind a way in. -/
def Passage.Value : Passage → Type
  | .type | .operand => TypeExpr
  | .block => List Statement

/-- The parsers for all that lies one level of nesting further in. -/
structure Inner where
  types : Level
  body : Parser (List Statement)

/-- The parser behind a way in. -/
def Inner.behind (i : Inner) : (p : Passage) → Parser p.Value
  | .type => i.types.typeExpr
  | .operand => i.types.operand
  | .block => i.body

/-- What a parser does from one buffer on: it stops with its reply, or it goes in and then on with
what was read there. -/
inductive Course (α : Type) where
  | stop (reply : Reply α)
  | enter (p : Passage) (b : Buffer) (next : p.Value → Buffer → Course α)

variable {α β : Type}

namespace Course

/-- The reply at the end, where `i` reads what lies further in. A failure there ends the course. -/
def run (i : Inner) : Course α → Reply α
  | stop reply => reply
  | enter p b next =>
    match i.behind p b with
    | .ok a b' => (next a b').run i
    | .fail e b' => .fail e b'

/-- No stop of the course itself is for too deep nesting. -/
def IsRoomy : Course α → Prop
  | stop (.ok _ _) => True
  | stop (.fail e _) => e.cause ≠ .nestingTooDeep
  | enter _ _ next => ∀ a b, (next a b).IsRoomy

/-- The course `c`, and behind it the one chosen by its value. -/
def andThen (f : α → Buffer → Course β) : Course α → Course β
  | stop (.ok a b) => f a b
  | stop (.fail e b) => .stop (.fail e b)
  | enter p b next => .enter p b fun a b' => (next a b').andThen f

theorem run_andThen (i : Inner) (f : α → Buffer → Course β) (c : Course α) :
    (c.andThen f).run i = match c.run i with
      | .ok a b => (f a b).run i
      | .fail e b => .fail e b := by
  induction c with
  | stop reply => cases reply <;> rfl
  | enter p b next ih =>
    simp only [andThen, run]
    cases i.behind p b with
    | ok a b' => exact ih a b'
    | fail e b' => rfl

theorem isRoomy_andThen {f : α → Buffer → Course β} {c : Course α} (hc : c.IsRoomy)
    (hf : ∀ a b, (f a b).IsRoomy) : (c.andThen f).IsRoomy := by
  induction c with
  | stop reply =>
    cases reply with
    | ok a b => exact hf a b
    | fail e b => exact hc
  | enter p b next ih => exact fun a b' => ih a b' (hc a b')

/-- `c` is what the parser does from `b` on, whatever lies further in, and the parser does not find
the nesting too deep by itself. -/
structure Charts (c : Course α) (P : Inner → Parser α) (b : Buffer) : Prop where
  run : ∀ i, P i b = c.run i
  isRoomy : c.IsRoomy

end Course

/-! ## Parsers that go nowhere further in -/

namespace Parser

/-- The parser never finds the nesting too deep. -/
class Plain (p : Parser α) : Prop where
  cause : ∀ {b b' : Buffer} {e : SyntaxError}, p b = .fail e b' → e.cause ≠ .nestingTooDeep

theorem Plain.of_ok {p : Parser α} (h : ∀ b, ∃ a b', p b = .ok a b') : Plain p := by
  refine ⟨fun {b b' e} hfail => ?_⟩
  obtain ⟨a, b'', hok⟩ := h b
  cases hok.symm.trans hfail

theorem Plain.failWith {e : SyntaxError} (h : e.cause ≠ .nestingTooDeep) :
    Plain (failWith e : Parser α) := by
  refine ⟨?_⟩
  rintro b _ _ ⟨⟩
  exact h

theorem Plain.bind {p : Parser α} {f : α → Parser β} (hp : Plain p) (hf : ∀ a, Plain (f a)) :
    Plain (p >>= f) := by
  refine ⟨fun {b b' e} h => ?_⟩
  cases hr : p b with
  | ok a b₁ => exact (hf a).cause ((bind_of_ok hr f).symm.trans h)
  | fail e' b₁ =>
    cases (bind_of_fail hr f).symm.trans h
    exact hp.cause hr

instance plain_bind (p : Parser α) (f : α → Parser β) [hp : Plain p] [hf : ∀ a, Plain (f a)] :
    Plain (p >>= f) := hp.bind hf

instance plain_ite (c : Prop) [Decidable c] (p q : Parser α) [Plain p] [Plain q] :
    Plain (if c then p else q) := by
  split
  · assumption
  · assumption

instance plain_pure (a : α) : Plain (pure a : Parser α) := .of_ok fun b => ⟨a, b, rfl⟩

instance plain_peek : Plain peek := .of_ok fun _ => ⟨_, _, rfl⟩

instance plain_consume : Plain consume := .of_ok fun _ => ⟨_, _, rfl⟩

instance plain_peek2 : Plain peek2 := .of_ok fun _ => ⟨_, _, rfl⟩

instance plain_peek3 : Plain peek3 := .of_ok fun _ => ⟨_, _, rfl⟩

instance plain_peek4 : Plain peek4 := .of_ok fun _ => ⟨_, _, rfl⟩

instance plain_checkpoint : Plain checkpoint := .of_ok fun _ => ⟨_, _, rfl⟩

instance plain_since (start : Nat) : Plain (since start) := .of_ok fun _ => ⟨_, _, rfl⟩

instance plain_sourceSpan : Plain sourceSpan := .of_ok fun _ => ⟨_, _, rfl⟩

end Parser

theorem Cause.atFault_ne_nestingTooDeep {otherwise : Cause} (h : otherwise ≠ .nestingTooDeep)
    (fault : Option Fault) : otherwise.atFault fault ≠ .nestingTooDeep := by
  unfold atFault
  split
  · nofun
  · nofun
  · nofun
  · nofun
  · exact h
  · exact h

namespace Parser

theorem Plain.unexpected {t : Token} {cause : Cause} (h : cause ≠ .nestingTooDeep) :
    Plain (Parser.failWith (t.unexpected cause) : Parser α) :=
  .failWith (Cause.atFault_ne_nestingTooDeep h _)

instance plain_expectedSyntax (t : Token) (what : String) :
    Plain (failWith (t.unexpected (.expectedSyntax what)) : Parser α) := .unexpected nofun

instance plain_expectedAt (what : String) (span : Span) (actual : Option Kind) :
    Plain (failWith ⟨.expectedSyntax what, span, actual⟩ : Parser α) := .failWith nofun

instance plain_requiredTokenNotFound (t : Token) (kind : Kind) :
    Plain (failWith (t.unexpected (.requiredTokenNotFound kind)) : Parser α) := .unexpected nofun

theorem plain_repeatAtMost (step : α → Parser (ForInStep α)) [hstep : ∀ a, Plain (step a)]
    (rounds : Nat) (a : α) : Plain (repeatAtMost step rounds a) := by
  induction rounds generalizing a with
  | zero => exact .failWith nofun
  | succ rounds ih =>
    unfold repeatAtMost
    refine (hstep a).bind fun r => ?_
    cases r with
    | yield a => exact ih a
    | done a => exact plain_pure a

instance plain_repeatFrom (a : α) (step : α → Parser (ForInStep α)) [∀ a, Plain (step a)] :
    Plain (repeatFrom a step) := ⟨fun {b} => (plain_repeatAtMost step b.rounds a).cause⟩

theorem Plain.spanned {p : Parser (Span → α)} (hp : Plain p) : Plain (spanned p) := by
  unfold Parser.spanned
  infer_instance

instance plain_spanned (p : Parser (Span → α)) [hp : Plain p] : Plain (spanned p) := hp.spanned

instance plain_peekKind : Plain peekKind := by unfold peekKind; infer_instance

instance plain_tryKind (kind : Kind) : Plain (tryKind kind) := by unfold tryKind; infer_instance

instance plain_accept (kind : Kind) : Plain (accept kind) := by unfold accept; infer_instance

instance plain_require (kind : Kind) : Plain (require kind) := by unfold require; infer_instance

instance plain_requireWhere (p : Kind → Bool) (what : String) : Plain (requireWhere p what) := by
  unfold requireWhere
  infer_instance

instance plain_nameWithSpan : Plain nameWithSpan := by unfold nameWithSpan; infer_instance

instance plain_name : Plain name := by unfold name; infer_instance

instance plain_statementEnd : Plain statementEnd := by unfold statementEnd; infer_instance

instance plain_after (kind : Kind) (p : Parser α) [Plain p] : Plain (after kind p) := by
  unfold after
  infer_instance

instance plain_commaList (close : Kind) (item : Parser α) [Plain item] :
    Plain (commaList close item) := by
  unfold commaList
  infer_instance

instance plain_stringWithSpan : Plain stringWithSpan := by
  unfold stringWithSpan
  refine Plain.bind inferInstance fun t => ?_
  split
  · infer_instance
  · exact .failWith nofun

instance plain_string : Plain string := by unfold string; infer_instance

instance plain_number : Plain number := by
  unfold number
  refine Plain.bind inferInstance fun t => ?_
  split
  · infer_instance
  · exact .failWith nofun

instance plain_negativeNumber : Plain negativeNumber := by unfold negativeNumber; infer_instance

instance plain_entityName : Plain entityName := by unfold entityName; infer_instance

instance plain_skipModifiers : Plain skipModifiers := by unfold skipModifiers; infer_instance

instance plain_memberKey : Plain memberKey := by
  unfold memberKey
  refine Plain.bind inferInstance fun t => ?_
  split <;> infer_instance

instance plain_opensFunctionType : Plain opensFunctionType := by
  unfold opensFunctionType
  refine Plain.bind inferInstance fun (_, b, c, d) => ?_
  dsimp only
  split
  · infer_instance
  · infer_instance
  · split
    · split <;> infer_instance
    · infer_instance

instance plain_dottedName : Plain dottedName := by unfold dottedName; infer_instance

instance plain_listedName : Plain listedName := by unfold listedName; infer_instance

instance plain_listedNames : Plain listedNames := by unfold listedNames; infer_instance

instance plain_enumValue : Plain enumValue := by
  unfold enumValue
  refine Plain.bind inferInstance fun kind => ?_
  split <;> infer_instance

instance plain_enumMember : Plain enumMember := by unfold enumMember; infer_instance

instance plain_enumDeclaration (exported : Export) : Plain (enumDeclaration exported) := by
  unfold enumDeclaration
  infer_instance

instance plain_importedNames (defaultName : Option String) : Plain (importedNames defaultName) := by
  unfold importedNames
  infer_instance

instance plain_importClause : Plain importClause := by unfold importClause; infer_instance

instance plain_importStatement : Plain importStatement := by
  unfold importStatement
  apply Plain.spanned
  refine Plain.bind inferInstance fun _ => Plain.bind inferInstance fun (a, b) => ?_
  dsimp only
  split
  · refine Plain.bind inferInstance fun _ => Plain.bind inferInstance fun kind => ?_
    infer_instance
  · refine Plain.bind inferInstance fun kind => ?_
    infer_instance

instance plain_exportAssignment : Plain exportAssignment := by
  unfold exportAssignment
  infer_instance

instance plain_exportAsNamespace : Plain exportAsNamespace := by
  unfold exportAsNamespace
  infer_instance

instance plain_exportList : Plain exportList := by unfold exportList; infer_instance

instance plain_emptyStatement : Plain emptyStatement := by unfold emptyStatement; infer_instance

instance plain_moduleName : Plain moduleDeclaration.moduleName := by
  unfold moduleDeclaration.moduleName
  infer_instance

/-! ## Parsers and what lies further in -/

/-- From every buffer the parser takes a course of its own. -/
class Charted (P : Inner → Parser α) : Prop where
  course : ∀ b, ∃ c : Course α, c.Charts P b

theorem Charted.bind {P : Inner → Parser α} {F : Inner → α → Parser β} (hP : Charted P)
    (hF : ∀ a, Charted fun i => F i a) : Charted fun i => P i >>= F i := by
  refine ⟨fun b => ?_⟩
  -- the courses of the second parser hang on the stops of the first one's
  obtain ⟨c, hc⟩ := hP.course b
  choose next hnext using fun a => (hF a).course
  have hroomy := Course.isRoomy_andThen hc.isRoomy fun a b' => (hnext a b').isRoomy
  refine ⟨c.andThen next, fun i => ?_, hroomy⟩
  rw [Course.run_andThen, ← hc.run]
  cases hr : P i b with
  | ok a b' => exact (bind_of_ok hr (F i)).trans ((hnext a b').run i)
  | fail e b' => exact bind_of_fail hr (F i)

instance charted_plain (p : Parser α) [hp : Plain p] : Charted fun _ => p := by
  refine ⟨fun b => ⟨.stop (p b), fun _ => rfl, ?_⟩⟩
  cases hr : p b with
  | ok a b' => trivial
  | fail e b' => exact hp.cause hr

theorem charted_behind (p : Passage) : Charted fun i => i.behind p := by
  refine ⟨fun b => ⟨.enter p b fun a b' => .stop (.ok a b'), fun i => ?_, fun _ _ => trivial⟩⟩
  unfold Course.run
  cases i.behind p b <;> rfl

instance charted_levelTypeExpr : Charted fun i => i.types.typeExpr := charted_behind .type

instance charted_levelOperand : Charted fun i => i.types.operand := charted_behind .operand

instance charted_body : Charted fun i => i.body := charted_behind .block

instance charted_bind (P : Inner → Parser α) (F : Inner → α → Parser β) [hP : Charted P]
    [hF : ∀ a, Charted fun i => F i a] : Charted fun i => P i >>= F i := hP.bind hF

instance charted_ite (c : Prop) [Decidable c] (P Q : Inner → Parser α) [hP : Charted P]
    [hQ : Charted Q] : Charted fun i => if c then P i else Q i := by
  split
  · exact hP
  · exact hQ

instance charted_spanned (P : Inner → Parser (Span → α)) [Charted P] :
    Charted fun i => spanned (P i) := by
  unfold spanned
  infer_instance

theorem charted_repeatAtMost (step : Inner → α → Parser (ForInStep α))
    [hstep : ∀ a, Charted fun i => step i a] (rounds : Nat) (a : α) :
    Charted fun i => repeatAtMost (step i) rounds a := by
  induction rounds generalizing a with
  | zero =>
    have hspent : Plain (failWith spent : Parser α) := .failWith nofun
    exact charted_plain (failWith spent)
  | succ rounds ih =>
    unfold repeatAtMost
    refine (hstep a).bind fun r => ?_
    cases r with
    | yield a => exact ih a
    | done a => exact charted_plain (pure a)

theorem Charted.repeatFrom {step : Inner → α → Parser (ForInStep α)}
    (hstep : ∀ a, Charted fun i => step i a) (a : α) : Charted fun i => repeatFrom a (step i) := by
  refine ⟨fun b => ?_⟩
  obtain ⟨c, hc⟩ := (charted_repeatAtMost step b.rounds a).course b
  exact ⟨c, hc.run, hc.isRoomy⟩

instance charted_repeatFrom (a : α) (step : Inner → α → Parser (ForInStep α))
    [hstep : ∀ a, Charted fun i => step i a] : Charted fun i => repeatFrom a (step i) :=
  .repeatFrom hstep a

instance charted_after (kind : Kind) (P : Inner → Parser α) [Charted P] :
    Charted fun i => after kind (P i) := by
  unfold after
  infer_instance

instance charted_collectStep (item : Inner → Parser (Option α)) [hitem : Charted item]
    (items : List α) : Charted fun i => collectStep (item i) items := by
  unfold collectStep
  refine hitem.bind fun r => ?_
  cases r <;> infer_instance

instance charted_collect (item : Inner → Parser (Option α)) [Charted item] :
    Charted fun i => collect (item i) := by
  simp only [collect_eq]
  infer_instance

instance charted_commaList (close : Kind) (item : Inner → Parser α) [Charted item] :
    Charted fun i => commaList close (item i) := by
  unfold commaList
  infer_instance

instance charted_separated (separator : Kind) (item : Inner → Parser α) [Charted item] :
    Charted fun i => separated separator (item i) := by
  unfold separated
  infer_instance

/-! ## Types -/

instance charted_typeReference : Charted fun i => typeReference i.types := by
  unfold typeReference
  infer_instance

instance charted_typeParameter : Charted fun i => typeParameter i.types := by
  unfold typeParameter
  infer_instance

instance charted_typeParameters : Charted fun i => typeParameters i.types := by
  unfold typeParameters
  infer_instance

instance charted_parameter : Charted fun i => parameter i.types := by
  unfold parameter
  infer_instance

instance charted_parameters : Charted fun i => parameters i.types := by
  unfold parameters
  infer_instance

instance charted_typeAfterColon : Charted fun i => typeAfterColon i.types := by
  unfold typeAfterColon
  infer_instance

instance charted_indexSignature (readonly : Bool) :
    Charted fun i => indexSignature i.types readonly := by
  unfold indexSignature
  refine Charted.bind inferInstance fun _ => Charted.bind inferInstance fun _ => ?_
  infer_instance

theorem charted_keyed {initial : Option (Inner → Parser TypeExpr)} (h : ∀ P ∈ initial, Charted P)
    (readonly : Bool) (next : Token × Token × Token) :
    Charted fun i => memberList.keyed i.types (initial.map (· i)) readonly next := by
  unfold memberList.keyed
  obtain ⟨a, b, c⟩ := next
  cases initial with
  | none =>
    dsimp only [Option.map_none]
    infer_instance
  | some P =>
    have hP : Charted P := h P rfl
    dsimp only [Option.map_some]
    infer_instance

theorem charted_member {initial : Option (Inner → Parser TypeExpr)}
    (h : ∀ P ∈ initial, Charted P) :
    Charted fun i => memberList.member i.types (initial.map (· i)) := by
  have hkeyed : ∀ readonly next, Charted fun i =>
      memberList.keyed i.types (initial.map (· i)) readonly next := charted_keyed h
  unfold memberList.member
  simp only [Option.isSome_map]
  split
  · refine Charted.bind inferInstance fun _ => Charted.bind inferInstance fun _ => ?_
    infer_instance
  · infer_instance

theorem charted_memberList {initial : Option (Inner → Parser TypeExpr)}
    (h : ∀ P ∈ initial, Charted P) :
    Charted fun i => memberList i.types (initial.map (· i)) := by
  have hmember := charted_member h
  unfold memberList
  refine Charted.bind inferInstance fun _ => ?_
  refine Charted.bind (.repeatFrom (fun members => ?_) []) inferInstance
  refine Charted.bind inferInstance fun _ => Charted.bind inferInstance fun closed => ?_
  dsimp only
  infer_instance

instance charted_typeMembers : Charted fun i => typeMembers i.types :=
  @charted_memberList none (by simp)

instance charted_primaryType : Charted fun i => primaryType i.types := by
  unfold primaryType
  refine Charted.bind inferInstance fun t => ?_
  -- the match lies under the binder of `i`, where only its discriminant can be taken apart
  cases t.kind <;> infer_instance

instance charted_classMembers : Charted fun i => classMembers i.types := by
  refine @charted_memberList (some fun i => primaryType i.types) fun P hP => ?_
  cases hP
  infer_instance

instance charted_suffixedType : Charted fun i => suffixedType i.types := by
  unfold suffixedType
  refine Charted.bind inferInstance fun start => Charted.bind inferInstance fun first => ?_
  refine .repeatFrom (fun type => Charted.bind inferInstance fun t => ?_) first
  infer_instance

instance charted_operatorType : Charted fun i => operatorType i.types := by
  unfold operatorType
  refine Charted.bind inferInstance fun kind => ?_
  cases kind
  case kwReadonly =>
    refine Charted.bind inferInstance fun t => Charted.bind inferInstance fun operand => ?_
    cases readonlyFrom? t.span.start operand <;> infer_instance
  all_goals infer_instance

instance charted_joined (sign : Kind) (make : Span → List TypeExpr → TypeExpr)
    (arm : Inner → Parser TypeExpr) [Charted arm] : Charted fun i => joined sign make (arm i) := by
  unfold joined
  infer_instance

instance charted_unionType : Charted fun i => unionType i.types := by
  unfold unionType intersectionType
  infer_instance

instance charted_functionType : Charted fun i => functionType i.types := by
  unfold functionType
  infer_instance

instance charted_constructorType : Charted fun i => constructorType i.types := by
  unfold constructorType
  infer_instance

instance charted_anyType : Charted fun i => anyType i.types := by
  unfold anyType
  refine Charted.bind inferInstance fun kind => ?_
  cases kind <;> infer_instance

/-! ## Statements -/

instance charted_variableDeclaration (exported : Export) :
    Charted fun i => variableDeclaration i.types exported := by
  unfold variableDeclaration
  infer_instance

instance charted_functionDeclaration (exported : Export) :
    Charted fun i => functionDeclaration i.types exported := by
  unfold functionDeclaration
  infer_instance

instance charted_typeAliasDeclaration (exported : Export) :
    Charted fun i => typeAliasDeclaration i.types exported := by
  unfold typeAliasDeclaration
  infer_instance

instance charted_interfaceDeclaration (exported : Export) :
    Charted fun i => interfaceDeclaration i.types exported := by
  unfold interfaceDeclaration
  infer_instance

instance charted_classDeclaration (exported : Export) :
    Charted fun i => classDeclaration i.types exported := by
  unfold classDeclaration
  infer_instance

instance charted_block : Charted fun i => block i.body := by unfold block; infer_instance

instance charted_moduleBody : Charted fun i => moduleDeclaration.moduleBody i.body := by
  unfold moduleDeclaration.moduleBody
  infer_instance

instance charted_moduleDeclaration : Charted fun i => moduleDeclaration i.body := by
  unfold moduleDeclaration
  infer_instance

instance charted_namespaceDeclaration (exported : Export) :
    Charted fun i => namespaceDeclaration i.body exported := by
  unfold namespaceDeclaration
  infer_instance

instance charted_globalDeclaration : Charted fun i => globalDeclaration i.body := by
  unfold globalDeclaration
  infer_instance

instance charted_declaration (exported : Export) :
    Charted fun i => declaration i.types i.body exported := by
  unfold declaration
  refine Charted.bind inferInstance fun declared => Charted.bind inferInstance fun (a, b) => ?_
  dsimp only
  cases a.kind <;> infer_instance

instance charted_statementContent : Charted fun i => statementContent i.types i.body := by
  unfold statementContent
  refine Charted.bind inferInstance fun (a, b) => ?_
  dsimp only
  cases a.kind
  case kwExport => cases b.kind <;> infer_instance
  all_goals infer_instance

instance charted_statement : Charted fun i => statement i.types i.body := by
  unfold statement
  infer_instance

instance charted_statements (close : Kind) :
    Charted fun i => statements i.types i.body close := by
  unfold statements
  infer_instance

end Parser

end Ambient
