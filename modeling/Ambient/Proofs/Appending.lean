import Ambient.Proofs.Sites
/-!
# Statements are appended whole or not at all

`Statement.compileOnto` appends to a list that is kept from statement to statement, and so could
leave half of a module in it. It does not: the items of a statement are those that `compile` gives,
whatever the list holds, and a statement that fails adds none (`Statement.compileOnto_eq`). The
scope behind a statement has at most the entry of that statement more. So compiling one list of
statements behind another is compiling the first and then, in the scope that it leaves, the second
(`compileOnto_atomic`).
-/

namespace Ambient

/-! ## Appending what is compiled apart -/

/-- Puts the items of a success behind `out`, and nothing if there is none. -/
def Compiled.onto (out : List Item) : Compiled (List Item × Scope) → Compiled Scope × List Item
  | .ok (items, scope) => (.ok scope, out ++ items)
  | .error e => (.error e, out)

/-- What appending statements one by one comes to, if compiling them apart comes to `made`: the
items of those before one that fails stay behind `out`. -/
inductive Compiled.Appends (out : List Item) :
    Compiled (List Item × Scope) → Compiled Scope × List Item → Prop
  | ok {items : List Item} {scope : Scope} :
    Appends out (.ok (items, scope)) (.ok scope, out ++ items)
  | error {e : CompileError} {kept : List Item} : Appends out (.error e) (.error e, out ++ kept)

mutual

theorem Declaration.compileOnto_eq (scope : Scope) : (d : Declaration) → (out : List Item) →
    d.compileOnto scope out = (d.compile scope).onto out
  | .ofModule _ _ (.identifier _) _, out => by
    rw [Declaration.compileOnto, Declaration.compile]
    rfl
  | .ofModule _ _ (.string _) none, out => by
    rw [Declaration.compileOnto, Declaration.compile, Compiled.onto, List.append_nil]
  | .ofModule _ _ (.string name) (some body), out => by
    -- the list of the body starts empty, so what stays in it after a failure is dropped
    have hbody := compileAllOnto_appends (scope.inModule name) body []
    rw [Declaration.compileOnto, Declaration.compile]
    generalize compileStatements (scope.inModule name) body = made at hbody ⊢
    generalize compileAllOnto (scope.inModule name) body [] = appended at hbody ⊢
    cases hbody with
    | ok => rfl
    | error => rfl
  | .ofVariable d, out => by
    rw [Declaration.compileOnto, Declaration.compile]
    cases d.compile scope <;> rfl
  | .ofFunction d, out => by
    rw [Declaration.compileOnto, Declaration.compile]
    cases d.compile scope <;> rfl
  | .ofTypeAlias d, out => by
    rw [Declaration.compileOnto, Declaration.compile]
    cases d.compile scope <;> rfl
  | .ofInterface d, out => by
    rw [Declaration.compileOnto, Declaration.compile]
    cases d.compile scope <;> rfl
  | .ofClass _, out | .ofEnum _, out | .ofNamespace .., out | .ofGlobal .., out | .empty _, out
  | .exportAsNamespace .., out | .exportAssignment .., out | .exportList _, out
  | .importing _, out => by
    rw [Declaration.compileOnto, Declaration.compile, Compiled.onto, List.append_nil]

/-- A statement appends what it is compiled to apart, or nothing. -/
theorem Statement.compileOnto_eq (scope : Scope) : (s : Statement) → (out : List Item) →
    s.compileOnto scope out = (s.compile scope).onto out
  | ⟨_, d⟩, out => by
    rw [Statement.compileOnto, Statement.compile]
    exact d.compileOnto_eq scope out

theorem compileAllOnto_appends (scope : Scope) : (ss : List Statement) → (out : List Item) →
    (compileStatements scope ss).Appends out (compileAllOnto scope ss out)
  | [], out => by
    rw [compileStatements, compileAllOnto]
    nth_rewrite 2 [← List.append_nil out]
    exact .ok
  | s :: ss, out => by
    rw [compileStatements, compileAllOnto, s.compileOnto_eq scope out]
    cases s.compile scope with
    | error e =>
      change Compiled.Appends out (.error e) (.error e, out)
      nth_rewrite 2 [← List.append_nil out]
      exact .error
    | ok made =>
      obtain ⟨items, scope'⟩ := made
      have hrest := compileAllOnto_appends scope' ss (out ++ items)
      change Compiled.Appends out (compileStatements scope' ss >>= _)
        (compileAllOnto scope' ss (out ++ items))
      generalize compileStatements scope' ss = rest at hrest ⊢
      generalize compileAllOnto scope' ss (out ++ items) = appended at hrest ⊢
      cases hrest with
      | ok =>
        rw [List.append_assoc]
        exact .ok
      | error =>
        rw [List.append_assoc]
        exact .error

end

/-! ## The scope behind a statement -/

/-- The scope that a declaration leaves behind it: an alias or an interface adds an entry for
itself, and no other declaration adds anything. -/
inductive Declaration.Leaves (scope : Scope) : Declaration → Scope → Prop
  | typeAlias {d : TypeAlias} : Leaves scope (.ofTypeAlias d)
    (scope.push (.typeAlias d.name (d.typeParameters.getD []).length))
  | interface {d : Interface} : Leaves scope (.ofInterface d)
    (scope.push (.interface d.name (d.typeParameters.getD []).length))
  | unchanged {d : Declaration} : d.entry = none → Leaves scope d scope

theorem Declaration.leaves_of_compile {scope scope' : Scope} {d : Declaration} {items : List Item}
    (h : d.compile scope = .ok (items, scope')) : d.Leaves scope scope' := by
  rw [Declaration.compile_eq ⟨scope, []⟩ d 0] at h
  obtain ⟨_, -, h⟩ := Compiled.bind_eq_ok.1 h
  obtain ⟨-, rfl⟩ := Prod.mk.inj (Except.ok.inj h)
  cases d with
  | ofTypeAlias d => exact .typeAlias
  | ofInterface d => exact .interface
  | _ => exact .unchanged rfl

theorem Declaration.Leaves.context {scope scope' : Scope} {d : Declaration}
    (h : d.Leaves scope scope') :
    scope'.moduleName = scope.moduleName ∧ scope'.interfaceName = scope.interfaceName := by
  cases h <;> exact ⟨rfl, rfl⟩

/-! ## One list behind another -/

theorem compileStatements_append (scope : Scope) (as bs : List Statement) :
    compileStatements scope (as ++ bs) = match compileStatements scope as with
      | .error e => .error e
      | .ok (items, next) =>
        (compileStatements next bs).map fun (others, last) => (items ++ others, last) := by
  induction as generalizing scope with
  | nil =>
    rw [List.nil_append, compileStatements]
    dsimp only
    cases compileStatements scope bs <;> rfl
  | cons s as ih =>
    rw [List.cons_append, compileStatements, compileStatements]
    cases s.compile scope with
    | error e => rfl
    | ok made =>
      obtain ⟨items, next⟩ := made
      simp only [Bind.bind, Except.bind, ih next]
      cases compileStatements next as with
      | error e => rfl
      | ok made' =>
        obtain ⟨others, last⟩ := made'
        dsimp only [Pure.pure, Except.pure]
        cases compileStatements last bs with
        | error e => rfl
        | ok made'' => simp [Except.map]

/-- A statement that fails leaves the list as it was, whatever the list holds. One that succeeds
puts items behind it that do not depend on it, keeps the module and the interface of the scope, and
leaves the scope as it was or, if it is an alias or an interface, with its own entry on top. So a
list of statements behind another fails with the error of the first if that fails, and otherwise
comes to the items of the first and then to the second in the scope behind the first. -/
theorem compileOnto_atomic (scope : Scope) :
    (∀ s : Statement,
      (∃ e, s.compile scope = .error e ∧ ∀ out, s.compileOnto scope out = (.error e, out)) ∨
      ∃ items scope', s.compile scope = .ok (items, scope') ∧
        (∀ out, s.compileOnto scope out = (.ok scope', out ++ items)) ∧
        scope'.moduleName = scope.moduleName ∧ scope'.interfaceName = scope.interfaceName ∧
        s.declaration.Leaves scope scope') ∧
    ∀ as bs : List Statement,
      compileStatements scope (as ++ bs) = match compileStatements scope as with
        | .error e => .error e
        | .ok (items, next) =>
          (compileStatements next bs).map fun (others, last) => (items ++ others, last) := by
  refine ⟨fun s => ?_, compileStatements_append scope⟩
  have honto := s.compileOnto_eq scope
  cases hs : s.compile scope with
  | error e =>
    rw [hs] at honto
    exact .inl ⟨e, rfl, honto⟩
  | ok made =>
    obtain ⟨items, scope'⟩ := made
    rw [hs] at honto
    have hleaves : s.declaration.Leaves scope scope' := by
      obtain ⟨_, d⟩ := s
      rw [Statement.compile] at hs
      exact Declaration.leaves_of_compile hs
    exact .inr ⟨items, scope', rfl, honto, hleaves.context.1, hleaves.context.2, hleaves⟩

end Ambient
