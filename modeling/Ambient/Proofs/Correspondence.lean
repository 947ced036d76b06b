import Ambient.Compile.Statement
import Ambient.Proofs.Binds
import Mathlib.Data.List.Forall2
/-!
# Declarations and items correspond

Walking through statements from left to right, and into the bodies of modules, one meets the
declarations that have bindings. If the statements compile, each declaration met gives one item, in
the same order (`corresponds_of_compile`). Statements that bind nothing can be left out anywhere
without a change to the outcome, be it items or an error (`compileStatements_of_thins`).
-/

namespace Ambient

/-! ## The declarations that are met -/

mutual

/-- The variables, functions, aliases and interfaces met in a declaration that stands in `module`,
each with the module that it stands in. -/
def Declaration.met (module : Option String) : Declaration → List (Option String × Declaration)
  | .ofModule _ _ (.string name) (some body) => metIn (some name) body
  | .ofVariable d => [(module, .ofVariable d)]
  | .ofFunction d => [(module, .ofFunction d)]
  | .ofTypeAlias d => [(module, .ofTypeAlias d)]
  | .ofInterface d => [(module, .ofInterface d)]
  | _ => []

/-- The declarations met in a statement. -/
def Statement.met (module : Option String) : Statement → List (Option String × Declaration)
  | ⟨_, declaration⟩ => declaration.met module

/-- The declarations met in statements, from left to right. -/
def metIn (module : Option String) : List Statement → List (Option String × Declaration)
  | [] => []
  | s :: ss => s.met module ++ metIn module ss

end

/-- The item is one that a declaration in `module` is bound to: a variable or a function to an
external of that module, an alias to a type declaration and an interface to a module, each under the
name that is declared. -/
inductive Declaration.BoundTo (module : Option String) : Declaration → Item → Prop
  | ofVariable {d : Variable} {x : Extern} :
    x.name = d.name → x.moduleName = module → x.isGetter = false →
    BoundTo module (.ofVariable d) (.external x)
  | ofFunction {d : Function} {x : Extern} :
    x.name = d.name → x.moduleName = module → x.isGetter = false →
    BoundTo module (.ofFunction d) (.external x)
  | ofTypeAlias {d : TypeAlias} {x : TypeDeclaration} :
    x.name = d.name → BoundTo module (.ofTypeAlias d) (.typeDeclaration x)
  | ofInterface {d : Interface} {items : List Item} :
    BoundTo module (.ofInterface d) (.submodule d.name items)

/-! ## One item for each -/

theorem Variable.boundTo {scope : Scope} {d : Variable} {item : Item}
    (h : d.compile scope = .ok item) :
    (Declaration.ofVariable d).BoundTo scope.moduleName item := by
  unfold Variable.compile at h
  split at h
  · cases h
  · obtain ⟨type, -, h⟩ := Compiled.bind_eq_ok.1 h
    cases h
    exact .ofVariable rfl rfl rfl

theorem Function.boundTo {scope : Scope} {d : Function} {item : Item}
    (h : d.compile scope = .ok item) :
    (Declaration.ofFunction d).BoundTo scope.moduleName item := by
  unfold Function.compile at h
  obtain ⟨signature, -, h⟩ := Compiled.bind_eq_ok.1 h
  cases h
  exact .ofFunction rfl rfl rfl

theorem TypeAlias.boundTo {scope : Scope} {d : TypeAlias} {item : Item} {entry : Entry}
    (h : d.compile scope = .ok (item, entry)) (module : Option String) :
    (Declaration.ofTypeAlias d).BoundTo module item := by
  unfold TypeAlias.compile at h
  split at h
  · obtain ⟨⟨inner, parameters⟩, -, h⟩ := Compiled.bind_eq_ok.1 h
    obtain ⟨body, -, h⟩ := Compiled.bind_eq_ok.1 h
    cases h
    exact .ofTypeAlias rfl
  · cases h

theorem Interface.boundTo {scope : Scope} {d : Interface} {item : Item} {entry : Entry}
    (h : d.compile scope = .ok (item, entry)) (module : Option String) :
    (Declaration.ofInterface d).BoundTo module item := by
  unfold Interface.compile at h
  split at h
  · split at h
    · cases h
    · obtain ⟨⟨inner, parameters⟩, -, h⟩ := Compiled.bind_eq_ok.1 h
      obtain ⟨fields, -, h⟩ := Compiled.bind_eq_ok.1 h
      cases h
      exact .ofInterface
  · cases h

/-- The items are those that the declarations met are bound to, one for each and in the same
order. -/
def Corresponds (met : List (Option String × Declaration)) (items : List Item) : Prop :=
  List.Forall₂ (fun x item => x.2.BoundTo x.1 item) met items

mutual

theorem Declaration.corresponds (scope : Scope) : (d : Declaration) → (items : List Item) →
    (scope' : Scope) → d.compile scope = .ok (items, scope') →
    Corresponds (d.met scope.moduleName) items ∧ scope'.moduleName = scope.moduleName
  | .ofModule _ _ (.identifier _) _, items, scope', h => by
    rw [Declaration.compile] at h
    cases h
  | .ofModule _ _ (.string name) (some body), items, scope', h => by
    rw [Declaration.compile] at h
    obtain ⟨⟨made, last⟩, hbody, h⟩ := Compiled.bind_eq_ok.1 h
    cases h
    rw [Declaration.met]
    exact ⟨(corresponds_of_compile (scope.inModule name) body items last hbody).1, rfl⟩
  | .ofVariable d, items, scope', h => by
    rw [Declaration.compile] at h
    obtain ⟨item, hitem, h⟩ := Compiled.bind_eq_ok.1 h
    cases h
    rw [Declaration.met]
    exact ⟨.cons (Variable.boundTo hitem) .nil, rfl⟩
  | .ofFunction d, items, scope', h => by
    rw [Declaration.compile] at h
    obtain ⟨item, hitem, h⟩ := Compiled.bind_eq_ok.1 h
    cases h
    rw [Declaration.met]
    exact ⟨.cons (Function.boundTo hitem) .nil, rfl⟩
  | .ofTypeAlias d, items, scope', h => by
    rw [Declaration.compile] at h
    obtain ⟨⟨item, entry⟩, hitem, h⟩ := Compiled.bind_eq_ok.1 h
    cases h
    rw [Declaration.met]
    exact ⟨.cons (TypeAlias.boundTo hitem _) .nil, rfl⟩
  | .ofInterface d, items, scope', h => by
    rw [Declaration.compile] at h
    obtain ⟨⟨item, entry⟩, hitem, h⟩ := Compiled.bind_eq_ok.1 h
    cases h
    rw [Declaration.met]
    exact ⟨.cons (Interface.boundTo hitem _) .nil, rfl⟩
  | .ofModule _ _ (.string _) none, items, scope', h | .ofClass _, items, scope', h
  | .ofEnum _, items, scope', h | .ofNamespace .., items, scope', h
  | .ofGlobal .., items, scope', h | .empty _, items, scope', h
  | .exportAsNamespace .., items, scope', h | .exportAssignment .., items, scope', h
  | .exportList _, items, scope', h | .importing _, items, scope', h => by
    rw [Declaration.compile] at h
    cases h
    rw [Declaration.met]
    · exact ⟨.nil, rfl⟩
    all_goals simp

theorem Statement.corresponds (scope : Scope) : (s : Statement) → (items : List Item) →
    (scope' : Scope) → s.compile scope = .ok (items, scope') →
    Corresponds (s.met scope.moduleName) items ∧ scope'.moduleName = scope.moduleName
  | ⟨_, d⟩, items, scope', h => by
    rw [Statement.compile] at h
    rw [Statement.met]
    exact d.corresponds scope items scope' h

theorem corresponds_of_compile (scope : Scope) : (ss : List Statement) → (items : List Item) →
    (scope' : Scope) → compileStatements scope ss = .ok (items, scope') →
    Corresponds (metIn scope.moduleName ss) items ∧ scope'.moduleName = scope.moduleName
  | [], items, scope', h => by
    rw [compileStatements] at h
    cases h
    rw [metIn]
    exact ⟨.nil, rfl⟩
  | s :: ss, items, scope', h => by
    rw [compileStatements] at h
    obtain ⟨⟨made, next⟩, hs, h⟩ := Compiled.bind_eq_ok.1 h
    obtain ⟨⟨others, last⟩, hss, h⟩ := Compiled.bind_eq_ok.1 h
    cases h
    obtain ⟨hmade, hnext⟩ := s.corresponds scope made next hs
    obtain ⟨hothers, hlast⟩ := corresponds_of_compile next ss others scope' hss
    rw [hnext] at hothers
    rw [metIn]
    exact ⟨List.rel_append hmade hothers, hlast.trans hnext⟩

end

/-! ## Leaving statements out -/

/-- Whether a declaration is passed over: it has no binding and cannot fail. -/
def Declaration.isSilent : Declaration → Bool
  | .ofClass _ | .ofEnum _ | .ofNamespace .. | .ofGlobal .. | .empty _ | .importing _
  | .exportList _ | .exportAssignment .. | .exportAsNamespace .. => true
  | .ofModule _ _ (.string _) none => true
  | _ => false

/-- The second list is the first one without some of the statements that are passed over, left out
of the list itself or of the bodies of modules in it, however deep. -/
inductive Thins : List Statement → List Statement → Prop
  | nil : Thins [] []
  | keep {s : Statement} {ss ss' : List Statement} : Thins ss ss' → Thins (s :: ss) (s :: ss')
  | drop {s : Statement} {ss ss' : List Statement} :
    s.declaration.isSilent → Thins ss ss' → Thins (s :: ss) ss'
  | inside {span declarationSpan nameSpan : Span} {name : ModuleName}
    {body body' ss ss' : List Statement} : Thins body body' → Thins ss ss' →
    Thins (⟨span, .ofModule declarationSpan nameSpan name (some body)⟩ :: ss)
      (⟨span, .ofModule declarationSpan nameSpan name (some body')⟩ :: ss')

theorem Declaration.compile_of_isSilent {d : Declaration} (h : d.isSilent) (scope : Scope) :
    d.compile scope = .ok ([], scope) := by
  unfold Declaration.isSilent at h
  split at h
  all_goals first | rw [Declaration.compile] | cases h

theorem Declaration.compile_ofModule_congr {body body' : List Statement}
    (h : ∀ scope, compileStatements scope body' = compileStatements scope body) (scope : Scope)
    (span nameSpan : Span) (name : ModuleName) :
    (Declaration.ofModule span nameSpan name (some body')).compile scope
      = (Declaration.ofModule span nameSpan name (some body)).compile scope := by
  cases name with
  | identifier name => rw [Declaration.compile, Declaration.compile]
  | string name => rw [Declaration.compile, Declaration.compile, h]

theorem compileStatements_of_thins {ss ss' : List Statement} (h : Thins ss ss') (scope : Scope) :
    compileStatements scope ss' = compileStatements scope ss := by
  induction h generalizing scope with
  | nil => rfl
  | @keep s ss ss' _ ih =>
    rw [compileStatements, compileStatements]
    simp only [ih]
  | @drop s ss ss' hs _ ih =>
    obtain ⟨span, d⟩ := s
    rw [compileStatements, Statement.compile, Declaration.compile_of_isSilent hs, ih]
    change compileStatements scope ss = compileStatements scope ss >>= pure
    rw [bind_pure]
  | @inside span declarationSpan nameSpan name body body' ss ss' _ _ ihbody ih =>
    rw [compileStatements, compileStatements, Statement.compile, Statement.compile,
      Declaration.compile_ofModule_congr ihbody]
    simp only [ih]

/-! ## Both together -/

/-- Statements that compile give one item for each declaration met in them, in the same order. And
whether they compile or not, the outcome is the same with any of the statements left out that are
passed over, here and in the bodies of modules. -/
theorem compileStatements_corresponds (scope : Scope) (ss : List Statement) :
    (∀ items scope', compileStatements scope ss = .ok (items, scope') →
      Corresponds (metIn scope.moduleName ss) items) ∧
    ∀ ss', Thins ss ss' → compileStatements scope ss' = compileStatements scope ss :=
  ⟨fun items scope' h => (corresponds_of_compile scope ss items scope' h).1,
    fun _ h => compileStatements_of_thins h scope⟩

/-- A module that declares a variable, with an empty statement behind it that is left out. -/
theorem compileStatements_corresponds_module :
    let here : Span := ⟨0, 0⟩
    let number : TypeExpr := .reference here (.identifier "number") none
    let x : Declaration := .ofVariable ⟨here, .none, .asVar, here, "x", some number⟩
    let full : Statement :=
      ⟨here, .ofModule here here (.string "m") (some [⟨here, x⟩, ⟨here, .empty here⟩])⟩
    let thin : Statement := ⟨here, .ofModule here here (.string "m") (some [⟨here, x⟩])⟩
    (∃ items scope', compileStatements .prelude [full] = .ok (items, scope') ∧
      Corresponds [(some "m", x)] items) ∧
    compileStatements .prelude [thin] = compileStatements .prelude [full] := by
  intro here number x full thin
  have h := compileStatements_corresponds .prelude [full]
  exact ⟨⟨_, _, rfl, h.1 _ _ rfl⟩, h.2 _ (.inside (.keep (.drop rfl .nil)) .nil)⟩

end Ambient
