import Ambient.Proofs.HaltingStatements
import Ambient.Proofs.Nesting
import Ambient.Proofs.Positions
/-!
# Failures are in the text

An error of the compiler is about a node of the syntax tree, and one of the parser about tokens, so
every error is about text that starts and ends with a token. Hence its place is in the source text,
in bytes as in lines and columns (`failure_inside`).
-/

namespace Ambient

/-! ## The spans of an outline -/

namespace Outline

variable {S : Span → Prop}

/-- All nodes of the outline have spans in `S`. -/
def All (S : Span → Prop) (o : Outline) : Prop := ∀ x ∈ o.preorder, S x.2

/-- All nodes of the outlines have spans in `S`. -/
def AllOf (S : Span → Prop) (os : List Outline) : Prop := ∀ x ∈ preorderAll os, S x.2

@[simp] theorem all_node {label : String} {span : Span} {parts : List Outline} :
    (node label span parts).All S ↔ S span ∧ AllOf S parts := by
  simp [All, AllOf, preorder]

@[simp] theorem allOf_nil : AllOf S [] := by simp [AllOf, preorderAll]

@[simp] theorem allOf_cons {o : Outline} {os : List Outline} :
    AllOf S (o :: os) ↔ o.All S ∧ AllOf S os := by
  simp only [AllOf, All, preorderAll, List.mem_append, or_imp, forall_and]

@[simp] theorem allOf_append {os ps : List Outline} :
    AllOf S (os ++ ps) ↔ AllOf S os ∧ AllOf S ps := by
  induction os with
  | nil => simp
  | cons o os ih => simp [ih, and_assoc]

end Outline

open Outline (AllOf)

theorem Fits.allOf {s : Scanner} {i j : Nat} {os : List Outline} {S : Span → Prop}
    (h : Fits s i j os) (hS : ∀ a b, a < b → S (s.spanOf a b)) : AllOf S os := by
  induction h with
  | nil _ => simp
  | cons _ hab _ _ ihparts ih => simp [hS _ _ hab, ihparts, ih]

/-! ## What errors are about -/

/-- Whether the problem is one of syntax, not of what is declared. -/
def Problem.isSyntax : Problem → Bool
  | malformed _ => true
  | _ => false

namespace Compiled

variable {α β : Type} {S : Span → Prop}

/-- The outcome is a value in `R`, or an error about text in `S` that is not one of syntax. -/
inductive Blames (S : Span → Prop) (R : α → Prop) : Compiled α → Prop
  | ok {a} : R a → Blames S R (.ok a)
  | error {problem span} : S span → problem.isSyntax = false → Blames S R (.error ⟨problem, span⟩)

theorem Blames.bind {R : α → Prop} {Q : β → Prop} {x : Compiled α} {f : α → Compiled β}
    (h : Blames S R x) (hf : ∀ a, R a → Blames S Q (f a)) : Blames S Q (x >>= f) := by
  cases h with
  | ok ha => exact hf _ ha
  | error hspan hproblem => exact .error hspan hproblem

end Compiled

open Compiled (Blames)

/-- Any value, or an error about text in `S`. -/
abbrev BlamesOnly {α : Type} (S : Span → Prop) (x : Compiled α) : Prop := Blames S (fun _ => True) x

section

variable {S : Span → Prop}

theorem TypeExpr.span_of_all {e : TypeExpr} (h : e.outline.All S) : S e.span := by
  cases e <;> simp only [TypeExpr.outline, Outline.leaf, Outline.all_node] at h <;> exact h.1

theorem Member.span_of_all {m : Member} (h : m.outline.All S) : S m.span := by
  cases m <;> simp only [Member.outline, Outline.all_node] at h <;> exact h.1

theorem Scope.resolve_blames (scope : Scope) {span : Span} (h : S span) (name : EntityName)
    (count : Nat) : BlamesOnly S (scope.resolve span name count) := by
  unfold Scope.resolve
  split
  · exact .error h rfl
  · split
    · exact .error h rfl
    · split
      · exact .error h rfl
      · split
        · exact .ok trivial
        · exact .error h rfl

theorem Scope.declareTypeParameters_blames (scope : Scope) {ps : List TypeParameter}
    (h : AllOf S (typeParametersOutline ps)) : BlamesOnly S (scope.declareTypeParameters ps) := by
  induction ps generalizing scope with
  | nil => exact .ok trivial
  | cons p ps ih =>
    obtain ⟨span, name, constraint, fallback⟩ := p
    simp only [typeParametersOutline, TypeParameter.outline, Outline.allOf_cons,
      Outline.all_node] at h
    unfold Scope.declareTypeParameters
    split
    · exact (ih _ h.2).bind fun _ _ => .ok trivial
    · exact .error h.1.1 rfl

theorem Scope.declareTypeParameters?_blames (scope : Scope) {ps : Option (List TypeParameter)}
    (h : AllOf S (typeParametersOutline? ps)) :
    BlamesOnly S (scope.declareTypeParameters? ps) := by
  cases ps with
  | none => exact .ok trivial
  | some ps => exact scope.declareTypeParameters_blames h

theorem BoundSignature.plainType_blames {s : BoundSignature} (h : ∀ span ∈ s.rest, S span) :
    BlamesOnly S s.plainType := by
  unfold BoundSignature.plainType
  split
  · rename_i span hrest
    exact .error (h span hrest) rfl
  · exact .ok trivial

theorem bindField_blames {span : Span} (h : S span) (key : String) (optional : Bool) (type : Ty) :
    BlamesOnly S (bindField span key optional type) := by
  unfold bindField
  split
  · exact .error h rfl
  · exact .ok trivial

mutual

/-- An error in binding a type is about one of its nodes. -/
theorem TypeExpr.bind_blames (scope : Scope) :
    (e : TypeExpr) → e.outline.All S → BlamesOnly S (e.bind scope)
  | .reference span name arguments, h => by
    rw [TypeExpr.outline, Outline.all_node] at h
    rw [TypeExpr.bind]
    refine (scope.resolve_blames h.1 name _).bind fun entry _ => ?_
    exact (bindArguments_blames scope arguments h.2).bind fun _ _ => .ok trivial
  | .literal span value, _ => by
    cases value <;> exact .ok trivial
  | .array span readonly element, h => by
    rw [TypeExpr.outline, Outline.all_node, Outline.allOf_cons] at h
    rw [TypeExpr.bind]
    exact (TypeExpr.bind_blames scope element h.2.1).bind fun _ _ => .ok trivial
  | .tuple span readonly elements, h => by
    rw [TypeExpr.outline, Outline.all_node] at h
    rw [TypeExpr.bind]
    split
    · exact .error h.1 rfl
    · exact (bindTypes_blames scope elements h.2).bind fun _ _ => .ok trivial
  | .union span arms, h => by
    rw [TypeExpr.outline, Outline.all_node] at h
    rw [TypeExpr.bind]
    split
    · split
      · exact (bindProper_blames scope h.1 arms h.2).bind fun _ _ => .ok trivial
      · exact .error h.1 rfl
    · exact bindAlike_blames scope h.1 arms h.2
  | .function span typeParameters parameters result, h => by
    simp only [TypeExpr.outline, Outline.all_node, Outline.allOf_append, Outline.allOf_cons] at h
    obtain ⟨-, ⟨htypes, hparameters⟩, hresult, -⟩ := h
    rw [TypeExpr.bind]
    refine (scope.declareTypeParameters?_blames htypes).bind fun x _ => ?_
    obtain ⟨inner, quantified⟩ := x
    refine (bindParameters_blames inner .functionType parameters hparameters).bind fun ps hps => ?_
    refine (TypeExpr.bind_blames inner result hresult).bind fun type _ => ?_
    exact BoundSignature.plainType_blames hps
  | .object span members, h => by
    rw [TypeExpr.outline, Outline.all_node] at h
    rw [TypeExpr.bind]
    exact (bindMembers_blames scope [] members h.2).bind fun _ _ => .ok trivial
  | .parenthesized span inner, h => by
    rw [TypeExpr.outline, Outline.all_node, Outline.allOf_cons] at h
    rw [TypeExpr.bind]
    exact TypeExpr.bind_blames scope inner h.2.1
  | .intersection .., h | .constructor .., h | .indexedAccess .., h | .query .., h | .keyOf .., h
  | .this _, h => by
    simp only [TypeExpr.outline, Outline.leaf, Outline.all_node] at h
    rw [TypeExpr.bind]
    exact .error h.1 rfl

theorem bindTypes_blames (scope : Scope) :
    (es : List TypeExpr) → AllOf S (typesOutline es) → BlamesOnly S (bindTypes scope es)
  | [], _ => .ok trivial
  | e :: es, h => by
    rw [typesOutline, Outline.allOf_cons] at h
    rw [bindTypes]
    refine (TypeExpr.bind_blames scope e h.1).bind fun type _ => ?_
    exact (bindTypes_blames scope es h.2).bind fun _ _ => .ok trivial

theorem bindArguments_blames (scope : Scope) : (arguments : Option (List TypeExpr)) →
    AllOf S (argumentsOutline arguments) → BlamesOnly S (bindArguments scope arguments)
  | none, _ => .ok trivial
  | some es, h => bindTypes_blames scope es h

theorem bindProper_blames (scope : Scope) {span : Span} (hspan : S span) :
    (arms : List TypeExpr) → AllOf S (typesOutline arms) →
    BlamesOnly S (bindProper scope span arms)
  | [], _ => .error hspan rfl
  | e :: es, h => by
    rw [typesOutline, Outline.allOf_cons] at h
    rw [bindProper]
    split
    · exact bindProper_blames scope hspan es h.2
    · exact TypeExpr.bind_blames scope e h.1

theorem bindAlike_blames (scope : Scope) {span : Span} (hspan : S span) :
    (arms : List TypeExpr) → AllOf S (typesOutline arms) →
    BlamesOnly S (bindAlike scope span arms)
  | [], _ => .error hspan rfl
  | e :: es, h => by
    rw [typesOutline, Outline.allOf_cons] at h
    rw [bindAlike]
    refine (TypeExpr.bind_blames scope e h.1).bind fun type _ => ?_
    exact bindSame_blames scope hspan type es h.2

theorem bindSame_blames (scope : Scope) {span : Span} (hspan : S span) (type : Ty) :
    (arms : List TypeExpr) → AllOf S (typesOutline arms) →
    BlamesOnly S (bindSame scope span type arms)
  | [], _ => .ok trivial
  | e :: es, h => by
    rw [typesOutline, Outline.allOf_cons] at h
    rw [bindSame]
    refine (TypeExpr.bind_blames scope e h.1).bind fun other _ => ?_
    split
    · exact bindSame_blames scope hspan type es h.2
    · exact .error hspan rfl

theorem bindRequired_blames (scope : Scope) {span : Span} (hspan : S span) {problem : Problem}
    (hproblem : problem.isSyntax = false) :
    (type : Option TypeExpr) → AllOf S (typeOutline? type) →
    BlamesOnly S (bindRequired scope span problem type)
  | none, _ => .error hspan hproblem
  | some e, h => TypeExpr.bind_blames scope e (Outline.allOf_cons.1 h).1

/-- The rest parameter is one of the nodes too. -/
theorem bindParameters_blames (scope : Scope) (owner : SignatureOwner) :
    (ps : List Parameter) → AllOf S (parametersOutline ps) →
    Blames S (fun bound => ∀ span ∈ bound.rest, S span) (bindParameters scope owner ps)
  | [], _ => .ok (by simp)
  | ⟨span, name, optional, rest, type⟩ :: ps, h => by
    rw [parametersOutline, Parameter.outline, Outline.allOf_cons, Outline.all_node] at h
    obtain ⟨⟨hspan, htype⟩, hps⟩ := h
    rw [bindParameters]
    split
    · exact bindParameters_blames scope owner ps hps
    · refine (bindRequired_blames scope hspan rfl type htype).bind fun type _ => ?_
      split
      · exact .error hspan rfl
      · refine (bindParameters_blames scope owner ps hps).bind fun others hothers => .ok ?_
        intro x hx
        rcases Option.or_eq_some_iff.1 hx with hx | ⟨-, hx⟩
        · exact hothers x hx
        · cases rest with
          | false => cases hx
          | true =>
            cases hx
            exact hspan

theorem bindMembers_blames (scope : Scope) (seen : List Field) : (ms : List Member) →
    AllOf S (membersOutline ms) → BlamesOnly S (bindMembers scope seen ms)
  | [], _ => .ok trivial
  | m :: ms, h => by
    rw [membersOutline, Outline.allOf_cons] at h
    rw [bindMembers]
    refine (Member.bind_blames scope m h.1).bind fun field _ => ?_
    split
    · exact .error (Member.span_of_all h.1) rfl
    · exact (bindMembers_blames scope (field :: seen) ms h.2).bind fun _ _ => .ok trivial

theorem Member.bind_blames (scope : Scope) :
    (m : Member) → m.outline.All S → BlamesOnly S (m.bind scope)
  | .property span readonly key optional type, h => by
    rw [Member.outline, Outline.all_node] at h
    rw [Member.bind]
    exact (bindRequired_blames scope h.1 rfl type h.2).bind fun type _ =>
      bindField_blames h.1 key optional type
  | .method span key optional typeParameters parameters result, h => by
    simp only [Member.outline, Outline.all_node, Outline.allOf_append] at h
    obtain ⟨hspan, ⟨htypes, hparameters⟩, hresult⟩ := h
    rw [Member.bind]
    refine (scope.declareTypeParameters?_blames htypes).bind fun x _ => ?_
    obtain ⟨inner, quantified⟩ := x
    refine (bindParameters_blames inner (.method key) parameters hparameters).bind fun ps hps => ?_
    refine (bindRequired_blames inner hspan rfl result hresult).bind fun type _ => ?_
    exact (BoundSignature.plainType_blames hps).bind fun type _ =>
      bindField_blames hspan key optional type
  | .call .., h | .construct .., h | .index .., h => by
    simp only [Member.outline, Outline.all_node] at h
    rw [Member.bind]
    exact .error h.1 rfl

end

/-! ## Statements -/

theorem bindFunction_blames (scope : Scope) {span : Span} (hspan : S span) (owner : SignatureOwner)
    {typeParameters : Option (List TypeParameter)} {parameters : List Parameter}
    {result : Option TypeExpr} (htypes : AllOf S (typeParametersOutline? typeParameters))
    (hparameters : AllOf S (parametersOutline parameters))
    (hresult : AllOf S (typeOutline? result)) :
    BlamesOnly S (bindFunction scope span owner typeParameters parameters result) := by
  refine (scope.declareTypeParameters?_blames htypes).bind fun x _ => ?_
  refine (bindParameters_blames x.1 owner parameters hparameters).bind fun ps _ => ?_
  exact (bindRequired_blames x.1 hspan rfl result hresult).bind fun _ _ => .ok trivial

theorem Variable.compile_blames (scope : Scope) {d : Variable}
    (h : AllOf S (Declaration.ofVariable d).parts) : BlamesOnly S (d.compile scope) := by
  simp only [Declaration.parts, Outline.leaf, Outline.allOf_cons, Outline.all_node] at h
  unfold Variable.compile
  split
  · exact .error h.1.1 rfl
  · rename_i type htype
    rw [htype] at h
    exact (type.bind_blames scope (Outline.allOf_cons.1 h.2).1).bind fun _ _ => .ok trivial

theorem Function.compile_blames (scope : Scope) {d : Function}
    (h : AllOf S (Declaration.ofFunction d).parts) : BlamesOnly S (d.compile scope) := by
  simp only [Declaration.parts, Outline.leaf, List.cons_append, Outline.allOf_cons,
    Outline.all_node, Outline.allOf_append] at h
  obtain ⟨⟨hspan, -⟩, ⟨htypes, hparameters⟩, hresult⟩ := h
  exact (bindFunction_blames scope hspan _ htypes hparameters hresult).bind fun _ _ => .ok trivial

theorem TypeAlias.compile_blames (scope : Scope) {d : TypeAlias}
    (h : AllOf S (Declaration.ofTypeAlias d).parts) : BlamesOnly S (d.compile scope) := by
  simp only [Declaration.parts, Outline.leaf, List.cons_append, Outline.allOf_cons,
    Outline.all_node, Outline.allOf_append] at h
  obtain ⟨⟨hspan, -⟩, htypes, hbody, -⟩ := h
  unfold TypeAlias.compile
  split
  · refine (scope.declareTypeParameters?_blames htypes).bind fun x _ => ?_
    exact (d.body.bind_blames x.1 hbody).bind fun _ _ => .ok trivial
  · exact .error hspan rfl

theorem Interface.compile_blames (scope : Scope) {d : Interface}
    (h : AllOf S (Declaration.ofInterface d).parts) : BlamesOnly S (d.compile scope) := by
  simp only [Declaration.parts, Outline.leaf, List.cons_append, Outline.allOf_cons,
    Outline.all_node, Outline.allOf_append] at h
  obtain ⟨⟨hspan, -⟩, ⟨htypes, hbases⟩, hmembers⟩ := h
  unfold Interface.compile
  split
  · split
    · rename_i base others heq
      rw [heq, typesOutline, Outline.allOf_cons] at hbases
      exact .error (TypeExpr.span_of_all hbases.1) rfl
    · refine (scope.declareTypeParameters?_blames htypes).bind fun x _ => ?_
      exact (bindMembers_blames _ [] d.members hmembers).bind fun _ _ => .ok trivial
  · exact .error hspan rfl

mutual

theorem Declaration.compile_blames (scope : Scope) :
    (d : Declaration) → AllOf S d.parts → BlamesOnly S (d.compile scope)
  | .ofModule _ nameSpan (.identifier _) _, h => by
    simp only [Declaration.parts, Outline.leaf, Outline.allOf_cons, Outline.all_node] at h
    rw [Declaration.compile]
    exact .error h.1.1 rfl
  | .ofModule _ _ (.string _) none, _ => by
    rw [Declaration.compile]
    exact .ok trivial
  | .ofModule _ _ (.string name) (some body), h => by
    rw [Declaration.parts, Outline.allOf_cons, statementsOutline?] at h
    rw [Declaration.compile]
    exact (compileStatements_blames (scope.inModule name) body h.2).bind fun _ _ => .ok trivial
  | .ofVariable d, h => by
    rw [Declaration.compile]
    exact (d.compile_blames scope h).bind fun _ _ => .ok trivial
  | .ofFunction d, h => by
    rw [Declaration.compile]
    exact (d.compile_blames scope h).bind fun _ _ => .ok trivial
  | .ofTypeAlias d, h => by
    rw [Declaration.compile]
    exact (d.compile_blames scope h).bind fun _ _ => .ok trivial
  | .ofInterface d, h => by
    rw [Declaration.compile]
    exact (d.compile_blames scope h).bind fun _ _ => .ok trivial
  | .ofClass _, _ | .ofEnum _, _ | .ofNamespace .., _ | .ofGlobal .., _ | .empty _, _
  | .exportAsNamespace .., _ | .exportAssignment .., _ | .exportList _, _ | .importing _, _ => by
    rw [Declaration.compile]
    exact .ok trivial

theorem compileStatements_blames (scope : Scope) : (ss : List Statement) →
    AllOf S (statementsOutline ss) → BlamesOnly S (compileStatements scope ss)
  | [], _ => .ok trivial
  | ⟨span, d⟩ :: ss, h => by
    simp only [statementsOutline, Statement.outline, Outline.allOf_cons, Outline.all_node] at h
    obtain ⟨⟨-, ⟨-, hd⟩, -⟩, hss⟩ := h
    rw [compileStatements, Statement.compile]
    refine (Declaration.compile_blames scope d hd).bind fun x _ => ?_
    exact (compileStatements_blames x.2 ss hss).bind fun _ _ => .ok trivial

end

end

/-! ## Files -/

/-- What the compiler finds wrong with a tree is not its syntax. -/
theorem isSyntax_of_compileStatements {scope : Scope} {ss : List Statement} {e : CompileError}
    (h : compileStatements scope ss = .error e) : e.problem.isSyntax = false := by
  have hspans : AllOf (fun _ => True) (statementsOutline ss) := fun _ _ => trivial
  have hblames := compileStatements_blames scope ss hspans
  rw [h] at hblames
  cases hblames with
  | error _ hproblem => exact hproblem

theorem bindingsOf_of_syntaxError {source : String} {syntaxError : SyntaxError}
    (h : parse source = .error syntaxError) :
    bindingsOf source = .error (.ofSyntaxError syntaxError) := by
  unfold bindingsOf
  rw [h]

theorem exists_syntaxError_of_bindingsOf {source : String} {e : CompileError}
    (h : bindingsOf source = .error e) (hmalformed : e.problem.isSyntax) :
    ∃ syntaxError, parse source = .error syntaxError ∧ e = .ofSyntaxError syntaxError := by
  unfold bindingsOf at h
  split at h
  · rename_i syntaxError hparse
    exact ⟨syntaxError, hparse, (Except.error.inj h).symm⟩
  · rename_i file _
    cases hmade : compileStatements .prelude file.body with
    | ok x =>
      rw [hmade] at h
      cases h
    | error e' =>
      rw [hmade] at h
      cases h
      rw [isSyntax_of_compileStatements hmade] at hmalformed
      cases hmalformed

/-- An error of any kind is about text from one token to another. -/
theorem span_of_bindingsOf {source : String} {e : CompileError} (h : bindingsOf source = .error e) :
    ∃ a b, a < b ∧ e.span = (Scanner.ofSource source).spanOf a b := by
  unfold bindingsOf at h
  split at h
  · rename_i syntaxError herror
    cases h
    obtain ⟨H, hscanner, hsound⟩ := sound_of_parse herror
    rw [← hscanner]
    exact hsound.span
  · rename_i file hfile
    obtain ⟨n, -, -, -, -, hfits⟩ := divide_of_parse hfile
    have hspans : AllOf (fun span => ∃ a b, a < b ∧ span = (Scanner.ofSource source).spanOf a b)
        (statementsOutline file.body) := hfits.allOf fun a b hab => ⟨a, b, hab, rfl⟩
    have hblames := compileStatements_blames .prelude file.body hspans
    generalize compileStatements .prelude file.body = made at h hblames
    cases hblames with
    | ok _ => cases h
    | error hspan _ =>
      cases h
      exact hspan

/-- The span is in the source text, and cut between characters. -/
structure Span.InText (source : String) (span : Span) : Prop where
  ordered : span.start ≤ span.stop
  inside : span.stop ≤ source.utf8ByteSize
  startBoundary : String.Pos.Raw.IsValid source ⟨span.start⟩
  stopBoundary : String.Pos.Raw.IsValid source ⟨span.stop⟩

/-- The range starts and stops in lines of the source text. Lines are what line feeds part, so a
text that ends in one has an empty line behind it. -/
structure Range.InText (source : String) (range : Range) : Prop where
  ordered : range.start.Le range.stop
  start : range.start.InLines (pieces '\n' source.toList)
  stop : range.stop.InLines (pieces '\n' source.toList)

/-- If a file cannot be compiled, for whatever reason, then the error is about text in it, and so is
the range of lines and columns that is reported. -/
theorem failure_inside {layout : Layout} {filename source : String} {failure : Failure}
    (h : compile layout filename source = .error failure) :
    ∃ e, bindingsOf source = .error e ∧ failure = .ofError filename source e ∧
      e.span.InText source ∧ failure.range.InText source := by
  unfold compile at h
  split at h
  · cases h
  · rename_i e herror
    cases h
    obtain ⟨a, b, hab, hspan⟩ := span_of_bindingsOf herror
    obtain ⟨front, text, rest, hsource, hstart, hstop⟩ := Scanner.exists_text_of_spanOf source hab
    have hfront := hsource.trans (List.append_assoc ..)
    rw [← hspan] at hstart hstop
    refine ⟨e, herror, rfl, ⟨?_, ?_, ?_, ?_⟩, ?_⟩
    · rw [hstart, hstop, width_append]
      exact Nat.le_add_right _ _
    · rw [hstop, ← width_toList, hsource, width_append (front ++ text)]
      exact Nat.le_add_right _ _
    · rw [hstart]
      exact isValid_width hfront
    · rw [hstop]
      exact isValid_width hsource
    · simp only [Failure.ofError, LineTable.range, hstart, hstop]
      exact ⟨LineTable.le_position hsource, LineTable.inLines_position hfront,
        LineTable.inLines_position hsource⟩

/-- The error is at the end of a text that ends in a line feed. -/
theorem failure_inside_lastLine : ∃ failure,
    compile ⟨2, true⟩ "a.d.ts" "declare type t =\n" = .error failure ∧
      failure.range = ⟨⟨2, 0⟩, ⟨2, 0⟩⟩ ∧ failure.range.InText "declare type t =\n" := by
  have hfails : (compile ⟨2, true⟩ "a.d.ts" "declare type t =\n").mapError Failure.range
      = .error ⟨⟨2, 0⟩, ⟨2, 0⟩⟩ := by decide +kernel
  cases hcompile : compile ⟨2, true⟩ "a.d.ts" "declare type t =\n" with
  | ok text =>
    rw [hcompile] at hfails
    cases hfails
  | error failure =>
    rw [hcompile] at hfails
    obtain ⟨e, -, -, -, hrange⟩ := failure_inside hcompile
    exact ⟨failure, rfl, Except.error.inj hfails, hrange⟩

end Ambient
