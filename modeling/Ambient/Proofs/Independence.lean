import Ambient.Proofs.Needs
/-!
# Independent statements commute

A statement that declares a type puts one entry on top of the scope, and what comes behind it sees
the entry only where it refers to a type of that name. So of two neighbours neither of which refers
to what the other declares, each is compiled as if it stood alone, and behind both of them every
name means the same in either order. Hence they may change places, and so do their items
(`compileStatements_swap`).
-/

namespace Ambient

/-! ## Items and the scope behind -/

/-- The name of the type that a declaration declares for the statements after it. -/
def Declaration.typeName (d : Declaration) : Option String := d.entry.map Entry.name

/-- The scope behind something that declares the entry. -/
def Scope.behind (scope : Scope) (entry : Option Entry) : Scope :=
  match entry with
  | some e => scope.push e
  | none => scope

/-- The items of a declaration. -/
def Declaration.items (scope : Scope) (d : Declaration) : Compiled (List Item) :=
  Prod.fst <$> d.compile scope

/-- The items of statements. -/
def itemsOf (scope : Scope) (ss : List Statement) : Compiled (List Item) :=
  Prod.fst <$> compileStatements scope ss

theorem Declaration.compile_eq_items (scope : Scope) (d : Declaration) :
    d.compile scope = (do return (← d.items scope, scope.behind d.entry)) := by
  have hcompile : d.compile scope = (do
      let items ← (d.sites ⟨scope, []⟩ 0).mapM Site.compile
      return (items, scope.behind d.entry)) := by
    rw [d.compile_eq ⟨scope, []⟩ 0]
    cases d.entry <;> rfl
  rw [Declaration.items, hcompile]
  cases (d.sites ⟨scope, []⟩ 0).mapM Site.compile <;> rfl

theorem itemsOf_cons (scope : Scope) (s : Statement) (ss : List Statement) :
    itemsOf scope (s :: ss) = (do
      let first ← s.declaration.items scope
      let others ← itemsOf (scope.behind s.declaration.entry) ss
      return first ++ others) := by
  obtain ⟨_, d⟩ := s
  rw [itemsOf, compileStatements, Statement.compile, d.compile_eq_items]
  cases d.items scope with
  | error e => rfl
  | ok first =>
    change Prod.fst <$> (compileStatements (scope.behind d.entry) ss >>= _)
      = (Prod.fst <$> compileStatements (scope.behind d.entry) ss) >>= _
    cases compileStatements (scope.behind d.entry) ss <;> rfl

theorem itemsOf_eq_ok {scope : Scope} {ss : List Statement} {items : List Item} :
    itemsOf scope ss = .ok items ↔ ∃ last, compileStatements scope ss = .ok (items, last) := by
  unfold itemsOf
  cases compileStatements scope ss with
  | error e => exact ⟨nofun, nofun⟩
  | ok made =>
    constructor
    · rintro ⟨⟩
      exact ⟨made.2, rfl⟩
    · rintro ⟨last, ⟨⟩⟩
      rfl

theorem Declaration.items_ofModule (scope : Scope) (span nameSpan : Span) (name : String)
    (body : List Statement) :
    (Declaration.ofModule span nameSpan (.string name) (some body)).items scope
      = itemsOf (scope.inModule name) body := by
  rw [Declaration.items, Declaration.compile, itemsOf]
  cases compileStatements (scope.inModule name) body <;> rfl

/-! ## What statements look up -/

mutual

/-- The names that a declaration looks up in the scope it stands in. A declaration that is passed
over looks up nothing, and in the body of a module names declared there before do not count. -/
def Declaration.needs : Declaration → List String
  | .ofModule _ _ (.string _) (some body) => needsOfStatements body
  | .ofVariable d => d.needs
  | .ofFunction d => d.needs
  | .ofTypeAlias d => d.needs
  | .ofInterface d => d.needs
  | .ofModule _ _ (.identifier _) _ | .ofModule _ _ (.string _) none | .ofClass _ | .ofEnum _
  | .ofNamespace .. | .ofGlobal .. | .empty _ | .exportAsNamespace .. | .exportAssignment ..
  | .exportList _ | .importing _ => []

/-- The names that a statement looks up in the scope it stands in. -/
def Statement.needs : Statement → List String
  | ⟨_, declaration⟩ => declaration.needs

/-- The names that statements look up in the scope that the first of them stands in. -/
def needsOfStatements : List Statement → List String
  | [] => []
  | s :: ss => s.needs ++ (needsOfStatements ss).filter fun n => s.declaration.typeName.all (· != n)

end

theorem Scope.AgreeOn.behind {names : List String} {s s' : Scope} {d : Declaration}
    (h : s.AgreeOn (names.filter fun n => d.typeName.all (· != n)) s') :
    (s.behind d.entry).AgreeOn names (s'.behind d.entry) := by
  unfold Declaration.typeName at h
  cases hentry : d.entry with
  | none =>
    rw [hentry] at h
    exact h.mono fun n hn => List.mem_filter.2 ⟨hn, rfl⟩
  | some e =>
    rw [hentry] at h
    exact .push e h

theorem Scope.moduleName_behind (scope : Scope) (entry : Option Entry) :
    (scope.behind entry).moduleName = scope.moduleName := by
  cases entry <;> rfl

theorem Variable.compile_congr {s s' : Scope} {d : Variable}
    (hmodule : s.moduleName = s'.moduleName) (h : s.AgreeOn d.needs s') :
    d.compile s = d.compile s' := by
  unfold Variable.needs at h
  unfold Variable.compile Scope.external Scope.exportsDefault
  cases htype : d.type with
  | none => rfl
  | some t =>
    rw [htype, needsOfType?] at h
    simp only [t.bind_congr h, hmodule]

theorem Function.compile_congr {s s' : Scope} {d : Function}
    (hmodule : s.moduleName = s'.moduleName) (h : s.AgreeOn d.needs s') :
    d.compile s = d.compile s' := by
  unfold Function.compile Scope.external Scope.exportsDefault
  rw [bindFunction_congr _ _ h, hmodule]

mutual

/-- A declaration gives the same items, or the same error, in scopes of one module that agree on
what it needs. -/
theorem Declaration.items_congr {s s' : Scope} (hmodule : s.moduleName = s'.moduleName) :
    (d : Declaration) → s.AgreeOn d.needs s' → d.items s = d.items s'
  | .ofModule _ _ (.string name) (some body), h => by
    rw [Declaration.needs] at h
    rw [Declaration.items_ofModule, Declaration.items_ofModule]
    have hmodule : (s.inModule name).moduleName = (s'.inModule name).moduleName := rfl
    exact itemsOf_congr hmodule body ⟨h.lookup, h.typeVariables, h.interfaceName⟩
  | .ofVariable d, h => by
    rw [Declaration.needs] at h
    rw [Declaration.items, Declaration.items, Declaration.compile, Declaration.compile,
      d.compile_congr hmodule h]
    cases d.compile s' <;> rfl
  | .ofFunction d, h => by
    rw [Declaration.needs] at h
    rw [Declaration.items, Declaration.items, Declaration.compile, Declaration.compile,
      d.compile_congr hmodule h]
    cases d.compile s' <;> rfl
  | .ofTypeAlias d, h => by
    rw [Declaration.needs] at h
    rw [Declaration.items, Declaration.items, Declaration.compile, Declaration.compile,
      d.compile_congr h]
    cases d.compile s' <;> rfl
  | .ofInterface d, h => by
    rw [Declaration.needs] at h
    rw [Declaration.items, Declaration.items, Declaration.compile, Declaration.compile,
      d.compile_congr h]
    cases d.compile s' <;> rfl
  | .ofModule _ _ (.identifier _) _, _ => by
    rw [Declaration.items, Declaration.items, Declaration.compile, Declaration.compile]
  | .ofModule _ _ (.string _) none, _ | .ofClass _, _ | .ofEnum _, _ | .ofNamespace .., _
  | .ofGlobal .., _ | .empty _, _ | .exportAsNamespace .., _ | .exportAssignment .., _
  | .exportList _, _ | .importing _, _ => by
    rw [Declaration.items, Declaration.items, Declaration.compile, Declaration.compile]
    rfl

theorem Statement.items_congr {s s' : Scope} (hmodule : s.moduleName = s'.moduleName) :
    (st : Statement) → s.AgreeOn st.needs s' →
    st.declaration.items s = st.declaration.items s'
  | ⟨_, d⟩, h => by
    rw [Statement.needs] at h
    exact d.items_congr hmodule h

theorem itemsOf_congr {s s' : Scope} (hmodule : s.moduleName = s'.moduleName) :
    (ss : List Statement) → s.AgreeOn (needsOfStatements ss) s' → itemsOf s ss = itemsOf s' ss
  | [], _ => by
    rw [itemsOf, itemsOf, compileStatements, compileStatements]
    rfl
  | st :: ss, h => by
    rw [needsOfStatements] at h
    rw [itemsOf_cons, itemsOf_cons, st.items_congr hmodule h.left,
      itemsOf_congr (by rw [Scope.moduleName_behind, Scope.moduleName_behind, hmodule]) ss
        h.right.behind]

end

/-! ## Changing places -/

/-- Neither of the statements refers to what the other declares, and they do not declare types of
the same name. -/
structure Independent (p q : Statement) : Prop where
  left : ∀ n ∈ q.declaration.typeName, n ∉ p.needs
  right : ∀ n ∈ p.declaration.typeName, n ∉ q.needs
  apart : ∀ n ∈ p.declaration.typeName, n ∉ q.declaration.typeName

theorem Scope.lookup_behind (scope : Scope) (d : Declaration) (n : String) :
    (scope.behind d.entry).lookup n = if d.typeName = some n then d.entry else scope.lookup n := by
  unfold Declaration.typeName Scope.behind
  cases d.entry with
  | none => rw [if_neg (by simp)]
  | some e => simp only [lookup_push, Option.map_some, Option.some.injEq]

/-- A declaration brings no type variables into scope. -/
theorem Scope.typeVariables_behind (scope : Scope) (d : Declaration) :
    (scope.behind d.entry).typeVariables = scope.typeVariables := by
  cases d <;> rfl

theorem Scope.interfaceName_behind (scope : Scope) (d : Declaration) :
    (scope.behind d.entry).interfaceName = scope.interfaceName := by
  cases d <;> rfl

/-- What does not refer to a declaration does not see it. -/
theorem Scope.agreeOn_behind {scope : Scope} {d : Declaration} {names : List String}
    (h : ∀ n ∈ d.typeName, n ∉ names) : (scope.behind d.entry).AgreeOn names scope where
  lookup n hn := by
    rw [lookup_behind, if_neg (show ¬d.typeName = some n from fun hname => h n hname hn)]
  typeVariables := scope.typeVariables_behind d
  interfaceName := scope.interfaceName_behind d

/-- Behind two declarations of different names their order does not matter. -/
theorem Scope.agreeOn_swap {scope : Scope} {d d' : Declaration}
    (h : ∀ n ∈ d.typeName, n ∉ d'.typeName) (names : List String) :
    ((scope.behind d.entry).behind d'.entry).AgreeOn names
      ((scope.behind d'.entry).behind d.entry) where
  lookup n _ := by
    rw [lookup_behind, lookup_behind, lookup_behind, lookup_behind]
    by_cases hd : d.typeName = some n
    · rw [if_neg (show ¬d'.typeName = some n from h n hd), if_pos hd, if_pos hd]
    · rw [if_neg hd, if_neg hd]
  typeVariables := by simp only [typeVariables_behind]
  interfaceName := by simp only [interfaceName_behind]

/-- In either order the items of both statements are those that each of them has alone, and those
of the rest are the same. -/
theorem Independent.itemsOf_eq {p q : Statement} (h : Independent p q) (scope : Scope)
    (rest : List Statement) : ∃ others : Compiled (List Item),
      itemsOf scope (p :: q :: rest) = (do
        return (← p.declaration.items scope) ++ ((← q.declaration.items scope) ++ (← others))) ∧
      itemsOf scope (q :: p :: rest) = (do
        return (← q.declaration.items scope) ++ ((← p.declaration.items scope) ++ (← others))) := by
  have hq : q.declaration.items (scope.behind p.declaration.entry) = q.declaration.items scope :=
    q.items_congr (scope.moduleName_behind _) (Scope.agreeOn_behind h.right)
  have hp : p.declaration.items (scope.behind q.declaration.entry) = p.declaration.items scope :=
    p.items_congr (scope.moduleName_behind _) (Scope.agreeOn_behind h.left)
  have hrest : itemsOf ((scope.behind q.declaration.entry).behind p.declaration.entry) rest
      = itemsOf ((scope.behind p.declaration.entry).behind q.declaration.entry) rest :=
    (itemsOf_congr (by simp only [Scope.moduleName_behind]) rest
      (Scope.agreeOn_swap h.apart _)).symm
  refine ⟨itemsOf ((scope.behind p.declaration.entry).behind q.declaration.entry) rest, ?_, ?_⟩
  · simp only [itemsOf_cons, hq, bind_assoc, pure_bind]
  · simp only [itemsOf_cons, hp, hrest, bind_assoc, pure_bind]

theorem Independent.symm {p q : Statement} (h : Independent p q) : Independent q p where
  left := h.right
  right := h.left
  apart n hq hp := h.apart n hp hq

theorem Independent.itemsOf_swap {p q : Statement} (h : Independent p q) {scope : Scope}
    {rest : List Statement} {items : List Item}
    (hitems : itemsOf scope (p :: q :: rest) = .ok items) :
    ∃ a b c, p.declaration.items scope = .ok a ∧ q.declaration.items scope = .ok b ∧
      items = a ++ (b ++ c) ∧ itemsOf scope (q :: p :: rest) = .ok (b ++ (a ++ c)) := by
  obtain ⟨others, hpq, hqp⟩ := h.itemsOf_eq scope rest
  rw [hpq] at hitems
  obtain ⟨a, ha, hitems⟩ := Compiled.bind_eq_ok.1 hitems
  obtain ⟨b, hb, hitems⟩ := Compiled.bind_eq_ok.1 hitems
  obtain ⟨c, hc, hitems⟩ := Compiled.bind_eq_ok.1 hitems
  obtain rfl : a ++ (b ++ c) = items := Except.ok.inj hitems
  refine ⟨a, b, c, ha, hb, rfl, ?_⟩
  rw [hqp, hb, ha, hc]
  rfl

theorem Statement.compile_eq_ok {scope : Scope} {s : Statement} {items : List Item}
    (h : s.declaration.items scope = .ok items) : ∃ next, s.compile scope = .ok (items, next) := by
  obtain ⟨_, d⟩ := s
  refine ⟨scope.behind d.entry, ?_⟩
  rw [Statement.compile, d.compile_eq_items, h]
  rfl

/-- Two neighbours that are independent may change places. The statements compile in one order if
and only if they compile in the other, and then the items of the two have changed places: each has
those that it has alone, and all that come behind are the same. -/
theorem compileStatements_swap {p q : Statement} (h : Independent p q) (scope : Scope)
    (rest : List Statement) :
    ((∃ made, compileStatements scope (p :: q :: rest) = .ok made) ↔
      ∃ made, compileStatements scope (q :: p :: rest) = .ok made) ∧
    ∀ items last, compileStatements scope (p :: q :: rest) = .ok (items, last) →
      ∃ a b c behindP behindQ last',
        p.compile scope = .ok (a, behindP) ∧ q.compile scope = .ok (b, behindQ) ∧
        items = a ++ b ++ c ∧
        compileStatements scope (q :: p :: rest) = .ok (b ++ a ++ c, last') := by
  refine ⟨⟨?_, ?_⟩, ?_⟩
  · rintro ⟨⟨items, last⟩, hmade⟩
    obtain ⟨_, _, _, _, _, _, hswap⟩ := h.itemsOf_swap (itemsOf_eq_ok.2 ⟨last, hmade⟩)
    obtain ⟨last', hmade'⟩ := itemsOf_eq_ok.1 hswap
    exact ⟨_, hmade'⟩
  · rintro ⟨⟨items, last⟩, hmade⟩
    obtain ⟨_, _, _, _, _, _, hswap⟩ := h.symm.itemsOf_swap (itemsOf_eq_ok.2 ⟨last, hmade⟩)
    obtain ⟨last', hmade'⟩ := itemsOf_eq_ok.1 hswap
    exact ⟨_, hmade'⟩
  · intro items last hmade
    obtain ⟨a, b, c, ha, hb, rfl, hswap⟩ := h.itemsOf_swap (itemsOf_eq_ok.2 ⟨last, hmade⟩)
    obtain ⟨behindP, hp⟩ := Statement.compile_eq_ok ha
    obtain ⟨behindQ, hq⟩ := Statement.compile_eq_ok hb
    obtain ⟨last', hmade'⟩ := itemsOf_eq_ok.1 hswap
    refine ⟨a, b, c, behindP, behindQ, last', hp, hq, (List.append_assoc ..).symm, ?_⟩
    rw [hmade', List.append_assoc]

/-- An alias `a` and an interface that has a type parameter of the same name are independent, and a
variable behind them uses both. -/
theorem compileStatements_swap_captured :
    let here : Span := ⟨0, 0⟩
    let named (name : String) : TypeExpr := .reference here (.identifier name) none
    let p : Statement := ⟨here, .ofTypeAlias ⟨here, .none, here, "a", none, named "number"⟩⟩
    let q : Statement := ⟨here, .ofInterface ⟨here, .none, here, "B",
      some [⟨here, "a", none, none⟩], [], [.property here false "c" false (some (named "a"))]⟩⟩
    let x : Statement := ⟨here, .ofVariable ⟨here, .none, .asVar, here, "x",
      some (.reference here (.identifier "B") (some [named "a"]))⟩⟩
    Independent p q ∧ ∃ a b c last last',
      compileStatements .prelude [p, q, x] = .ok (a ++ b ++ c, last) ∧
      compileStatements .prelude [q, p, x] = .ok (b ++ a ++ c, last') := by
  intro here named p q x
  have h : Independent p q := ⟨by decide, by decide, by decide⟩
  have hitems : itemsOf .prelude [p, q, x]
      = .ok [.typeDeclaration ⟨false, "a", [], .named "float"⟩,
        .submodule "B" (interfaceItems ["a"] [⟨"c", .variable "a"⟩]),
        .external ⟨none, false, "x", .constructor "B.t" [.named "a"], false, false⟩] := by
    decide +kernel
  obtain ⟨last, hmade⟩ := itemsOf_eq_ok.1 hitems
  obtain ⟨a, b, c, _, _, last', _, _, hblocks, hswap⟩ :=
    (compileStatements_swap h .prelude [x]).2 _ _ hmade
  exact ⟨h, a, b, c, last, last', hblocks ▸ hmade, hswap⟩

end Ambient
