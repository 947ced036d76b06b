import Ambient.Proofs.Correspondence
import Ambient.Proofs.Needs
/-!
# The module around statements only labels externals

The module that statements stand in is written on the externals that they declare themselves, and
nothing else depends on it. In another module the same statements fail with the same error or give
the same items with the other name written on those externals; outside modules, these are globals
and none of them is a default export (`compileStatements_inContext`). What stands in the body of an
inner module is attributed to that one, and the getters of interfaces to none.
-/

namespace Ambient

/-! ## Contexts -/

/-- The same names, inside the module given, or outside all modules. -/
def Scope.inContext (context : Option String) (scope : Scope) : Scope :=
  { scope with moduleName := context }

/-- The external as it is declared in another context. A global is no default export. -/
def Extern.inContext : Option String → Extern → Extern
  | some name, e => { e with moduleName := some name }
  | none, e => { e with moduleName := none, isDefault := false }

/-- The item of a declaration that is met, as it is made in another context. Only the external of a
declaration that is not in an inner module changes. -/
def Item.inContext (context : Option String) : Option String × Declaration → Item → Item
  | (none, _), .external e => .external (e.inContext context)
  | (none, _), item | (some _, _), item => item

/-- The items of the declarations that are met, as they are made in another context. -/
def relabel (context : Option String) (met : List (Option String × Declaration))
    (items : List Item) : List Item :=
  List.zipWith (Item.inContext context) met items

theorem Scope.agreeOn_inContext (scope : Scope) (context : Option String) (name : String)
    (names : List String) : (scope.inContext context).AgreeOn names (scope.inModule name) :=
  ⟨fun _ _ => rfl, rfl, rfl⟩

theorem Scope.external_inContext (scope : Scope) (context : Option String) (name : String)
    (exported : Export) (declared : String) (type : Ty) (isVariadic : Bool) (d : Declaration) :
    (scope.inContext context).external exported declared type isVariadic
      = Item.inContext context (none, d)
        ((scope.inModule name).external exported declared type isVariadic) := by
  cases context with
  | none => simp only [external, exportsDefault, inContext, inModule, Item.inContext,
      Extern.inContext, Option.isSome_none, Bool.and_false]
  | some _ => rfl

/-! ## Declarations of inner modules -/

mutual

/-- Which declarations are met does not depend on the context, and those of inner modules are met
as such. -/
theorem Declaration.met_eq_map (context : Option String) : (d : Declaration) →
    d.met context = (d.met none).map fun x => (x.1.or context, x.2)
  | .ofModule _ _ (.string name) (some body) => by
    rw [Declaration.met, Declaration.met, metIn_eq_map (some name) body, List.map_map]
    simp only [Function.comp_def, Option.or_assoc, Option.some_or]
  | .ofVariable _ | .ofFunction _ | .ofTypeAlias _ | .ofInterface _ => by
    rw [Declaration.met, Declaration.met]
    rfl
  | .ofModule _ _ (.identifier _) _ | .ofModule _ _ (.string _) none | .ofClass _ | .ofEnum _
  | .ofNamespace .. | .ofGlobal .. | .empty _ | .exportAsNamespace .. | .exportAssignment ..
  | .exportList _ | .importing _ => by
    rw [Declaration.met, Declaration.met]
    · rfl
    all_goals simp

theorem Statement.met_eq_map (context : Option String) : (s : Statement) →
    s.met context = (s.met none).map fun x => (x.1.or context, x.2)
  | ⟨_, d⟩ => by
    rw [Statement.met, Statement.met]
    exact d.met_eq_map context

theorem metIn_eq_map (context : Option String) : (ss : List Statement) →
    metIn context ss = (metIn none ss).map fun x => (x.1.or context, x.2)
  | [] => by
    rw [metIn, metIn]
    rfl
  | s :: ss => by
    rw [metIn, metIn, List.map_append, s.met_eq_map context, metIn_eq_map context ss]

end

theorem isSome_of_mem_metIn {name : String} {body : List Statement}
    {x : Option String × Declaration} (h : x ∈ metIn (some name) body) : x.1.isSome := by
  rw [metIn_eq_map] at h
  obtain ⟨y, -, rfl⟩ := List.mem_map.1 h
  cases y.1 <;> rfl

theorem relabel_eq_self {context : Option String} {met : List (Option String × Declaration)}
    {items : List Item} (hlength : met.length = items.length) (h : ∀ x ∈ met, x.1.isSome) :
    relabel context met items = items := by
  induction met generalizing items with
  | nil => rw [List.length_eq_zero_iff.1 hlength.symm, relabel, List.zipWith_nil_left]
  | cons x met ih =>
    cases items with
    | nil => cases hlength
    | cons item items =>
      obtain ⟨hx, hmet⟩ := List.forall_mem_cons.1 h
      obtain ⟨_ | name, d⟩ := x
      · cases hx
      · exact congrArg (item :: ·) (ih (Nat.succ.inj hlength) hmet)

/-! ## Statements -/

theorem Variable.compile_inContext (context : Option String) (scope : Scope) (name : String)
    (d : Variable) : d.compile (scope.inContext context)
      = Item.inContext context (none, .ofVariable d) <$> d.compile (scope.inModule name) := by
  unfold Variable.compile
  cases d.type with
  | none => rfl
  | some type =>
    change (type.bind _ >>= _) = _ <$> (type.bind _ >>= _)
    rw [type.bind_congr (scope.agreeOn_inContext context name _)]
    cases type.bind (scope.inModule name) with
    | error e => rfl
    | ok bound => exact congrArg Except.ok (scope.external_inContext ..)

theorem Function.compile_inContext (context : Option String) (scope : Scope) (name : String)
    (d : Function) : d.compile (scope.inContext context)
      = Item.inContext context (none, .ofFunction d) <$> d.compile (scope.inModule name) := by
  unfold Function.compile
  rw [bindFunction_congr _ _ (scope.agreeOn_inContext context name _)]
  cases bindFunction (scope.inModule name) d.nameSpan (.function d.name) d.typeParameters
    d.parameters d.result with
  | error e => rfl
  | ok signature => exact congrArg Except.ok (scope.external_inContext ..)

theorem relabel_of_compile {context : Option String} {scope : Scope} {name : String}
    {body : List Statement} {items : List Item} {last : Scope}
    (h : compileStatements (scope.inModule name) body = .ok (items, last)) :
    relabel context (metIn (some name) body) items = items :=
  relabel_eq_self (corresponds_of_compile _ body items last h).1.length_eq
    fun _ => isSome_of_mem_metIn

/-- What one declaration gives in another context. -/
theorem Declaration.compile_inContext (context : Option String) (scope : Scope) (name : String)
    (d : Declaration) : d.compile (scope.inContext context)
      = (fun made => (relabel context (d.met none) made.1, made.2.inContext context))
        <$> d.compile (scope.inModule name) := by
  match d with
  | .ofModule _ _ (.string inner) (some body) =>
    rw [Declaration.compile, Declaration.compile, Declaration.met]
    -- In either context the body is compiled in the scope of the inner module.
    change (compileStatements (scope.inModule inner) body >>= _)
      = _ <$> (compileStatements (scope.inModule inner) body >>= _)
    cases hbody : compileStatements (scope.inModule inner) body with
    | error e => rfl
    | ok made =>
      exact congrArg (fun items => Except.ok (items, scope.inContext context))
        (relabel_of_compile hbody).symm
  | .ofVariable d =>
    rw [Declaration.compile, Declaration.compile, Declaration.met,
      d.compile_inContext context scope name]
    cases d.compile (scope.inModule name) <;> rfl
  | .ofFunction d =>
    rw [Declaration.compile, Declaration.compile, Declaration.met,
      d.compile_inContext context scope name]
    cases d.compile (scope.inModule name) <;> rfl
  | .ofTypeAlias d =>
    rw [Declaration.compile, Declaration.compile, Declaration.met,
      d.compile_congr (scope.agreeOn_inContext context name _)]
    cases hmade : d.compile (scope.inModule name) with
    | error e => rfl
    | ok made =>
      obtain ⟨item, entry⟩ := made
      cases TypeAlias.boundTo hmade none
      rfl
  | .ofInterface d =>
    rw [Declaration.compile, Declaration.compile, Declaration.met,
      d.compile_congr (scope.agreeOn_inContext context name _)]
    cases hmade : d.compile (scope.inModule name) with
    | error e => rfl
    | ok made =>
      obtain ⟨item, entry⟩ := made
      cases Interface.boundTo hmade none
      rfl
  | .ofModule _ _ (.identifier _) _ =>
    rw [Declaration.compile, Declaration.compile]
    rfl
  | .ofModule _ _ (.string _) none | .ofClass _ | .ofEnum _ | .ofNamespace .. | .ofGlobal ..
  | .empty _ | .exportAsNamespace .. | .exportAssignment .. | .exportList _ | .importing _ =>
    rw [Declaration.compile, Declaration.compile]
    exact congrArg (fun items => Except.ok (items, scope.inContext context))
      List.zipWith_nil_right.symm

theorem Statement.compile_inContext (context : Option String) (scope : Scope) (name : String) :
    (s : Statement) → s.compile (scope.inContext context)
      = (fun made => (relabel context (s.met none) made.1, made.2.inContext context))
        <$> s.compile (scope.inModule name)
  | ⟨_, d⟩ => by
    rw [Statement.compile, Statement.compile, Statement.met]
    exact d.compile_inContext context scope name

theorem Statement.length_met {scope : Scope} {s : Statement} {items : List Item} {next : Scope}
    (h : s.compile scope = .ok (items, next)) : (s.met none).length = items.length := by
  have hlength := (s.corresponds scope items next h).1.length_eq
  rwa [s.met_eq_map, List.length_map] at hlength

/-- What statements give in another context. -/
theorem compileStatements_eq_relabel (context : Option String) (scope : Scope) (name : String)
    (ss : List Statement) : compileStatements (scope.inContext context) ss
      = (fun made => (relabel context (metIn none ss) made.1, made.2.inContext context))
        <$> compileStatements (scope.inModule name) ss := by
  induction ss generalizing scope with
  | nil =>
    rw [compileStatements, compileStatements]
    rfl
  | cons s ss ih =>
    rw [compileStatements, compileStatements, metIn, s.compile_inContext context scope name]
    cases hs : s.compile (scope.inModule name) with
    | error e => rfl
    | ok made =>
      obtain ⟨items, next⟩ := made
      have hlength := Statement.length_met hs
      have hnext : next.inModule name = next := by
        have hname : next.moduleName = some name := (s.corresponds _ _ _ hs).2
        rw [Scope.inModule, ← hname]
      change (compileStatements (next.inContext context) ss >>= _)
        = _ <$> (compileStatements next ss >>= _)
      rw [ih next, hnext]
      cases compileStatements next ss with
      | error e => rfl
      | ok rest =>
        exact congrArg (fun items => Except.ok (items, rest.2.inContext context))
          (List.zipWith_append hlength).symm

/-- The module around statements only labels externals. In any other context, which is another
module or none, the statements fail with the same error or give the same items, except that each
external of a declaration of their own is attributed to the other module or to none, and is no
default export in the latter case. In the module `name` these, and no others for it, are attributed
to `name`. -/
theorem compileStatements_inContext (scope : Scope) (name : String) (ss : List Statement) :
    (∀ context, compileStatements (scope.inContext context) ss
      = (fun made => (relabel context (metIn none ss) made.1, made.2.inContext context))
        <$> compileStatements (scope.inModule name) ss) ∧
    ∀ items last, compileStatements (scope.inModule name) ss = .ok (items, last) →
      List.Forall₂ (fun x item => x.2.BoundTo (x.1.or (some name)) item) (metIn none ss) items := by
  refine ⟨fun context => compileStatements_eq_relabel context scope name ss, ?_⟩
  intro items last h
  have hbound : Corresponds (metIn (some name) ss) items := (corresponds_of_compile _ ss _ _ h).1
  rwa [metIn_eq_map, Corresponds, List.forall₂_map_left_iff] at hbound

/-- A default export of a module `m`, around another module of that name. Outside modules the first
variable is a global, and the second one is attributed to `m` as before. -/
theorem compileStatements_inContext_sameName :
    let here : Span := ⟨0, 0⟩
    let number : TypeExpr := .reference here (.identifier "number") none
    let x : Declaration := .ofVariable ⟨here, .default, .asVar, here, "x", some number⟩
    let y : Declaration := .ofVariable ⟨here, .none, .asVar, here, "y", some number⟩
    let ss : List Statement :=
      [⟨here, x⟩, ⟨here, .ofModule here here (.string "m") (some [⟨here, y⟩])⟩]
    ∃ item item' last,
      compileStatements (Scope.prelude.inModule "m") ss = .ok ([item, item'], last) ∧
      x.BoundTo (some "m") item ∧ y.BoundTo (some "m") item' ∧
      compileStatements (Scope.prelude.inContext none) ss
        = .ok ([.external ⟨none, false, "x", .named "float", false, false⟩, item'],
          Scope.prelude) := by
  intro here number x y ss
  obtain ⟨houtside, hbound⟩ := compileStatements_inContext .prelude "m" ss
  have hbound := hbound _ _ rfl
  cases hbound with
  | cons hx hrest =>
    cases hrest with
    | cons hy _ => exact ⟨_, _, _, rfl, hx, hy, houtside none⟩

end Ambient
