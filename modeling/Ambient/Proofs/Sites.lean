import Ambient.Compile.Statement
import Ambient.Proofs.Binds
import Mathlib.Data.List.Forall2
/-!
# The declarations of a file

Compiling statements comes down to compiling the declarations that are met on the way, each in the
scope that it stands in, and giving the items in the same order (`compileStatements_eq`). A `Site`
is such a declaration with what it sees: its scope, and the numbers of the declarations that brought
names into that scope, the most recent first. What a module declares is seen inside it only.
-/

namespace Ambient

/-! ## Declarations -/

/-- A declaration that an item is made for. A module whose name is no string has none, and is an
error. -/
inductive Declared where
  | ofVariable (d : Variable)
  | ofFunction (d : Function)
  | ofTypeAlias (d : TypeAlias)
  | ofInterface (d : Interface)
  | ofMisnamed (nameSpan : Span)

namespace Declared

/-- What the declaration brings into scope for the statements after it. -/
def entry : Declared → Option Entry
  | .ofTypeAlias d => some (.typeAlias d.name (d.typeParameters.getD []).length)
  | .ofInterface d => some (.interface d.name (d.typeParameters.getD []).length)
  | _ => none

/-- The item of the declaration. -/
def compile (scope : Scope) : Declared → Compiled Item
  | .ofVariable d => d.compile scope
  | .ofFunction d => d.compile scope
  | .ofTypeAlias d => do return (← d.compile scope).1
  | .ofInterface d => do return (← d.compile scope).1
  | .ofMisnamed nameSpan => nameSpan.error .moduleNameNotString

/-- A declaration is bound to an item in a context. -/
inductive Binds {σ : Type} (d : Discipline σ) (c : σ) : Declared → Item → Prop
  | ofVariable {x : Variable} {e : TypeExpr} {external : Extern} :
    x.type = some e →
    external.name = x.name →
    Ambient.Binds d c (.type e) external.type →
    Binds d c (.ofVariable x) (.external external)
  | ofFunction {x : Function} {result : TypeExpr} {external : Extern} :
    x.result = some result →
    external.name = x.name →
    Ambient.Binds d c (.signature (x.typeParameters.getD []) x.parameters result) external.type →
    Binds d c (.ofFunction x) (.external external)
  | ofTypeAlias {x : TypeAlias} {inner : σ} {vs : List String} {body : Ty} :
    Letter.startsLower x.name →
    d.declares c (x.typeParameters.getD []) inner vs →
    Ambient.Binds d inner (.type x.body) body →
    Binds d c (.ofTypeAlias x)
      (.typeDeclaration ⟨body.anyName (namesAlias x.name), x.name, vs, body⟩)
  | ofInterface {x : Interface} {inner : σ} {vs : List String} {fields : List Field} :
    Letter.startsUpper x.name →
    d.declares c (x.typeParameters.getD []) inner vs →
    Ambient.Binds d (d.enters inner x.name vs.length) (.type (.object x.span x.members))
      (.object fields) →
    Binds d c (.ofInterface x) (.submodule x.name (interfaceItems vs fields))

end Declared

theorem Scope.length_of_declareTypeParameters {scope inner : Scope} {ps : List TypeParameter}
    {vs : List String} (h : scope.declareTypeParameters ps = .ok (inner, vs)) :
    vs.length = ps.length := by
  induction ps generalizing scope vs with
  | nil =>
    unfold Scope.declareTypeParameters at h
    cases h
    rfl
  | cons p ps ih =>
    unfold Scope.declareTypeParameters at h
    split at h
    · obtain ⟨⟨scope', others⟩, hothers, h⟩ := Compiled.bind_eq_ok.1 h
      cases h
      simp [ih hothers]
    · cases h

theorem Variable.compile_eq_ok {scope : Scope} {d : Variable} {item : Item}
    (h : d.compile scope = .ok item) :
    Declared.Binds Scope.discipline scope (.ofVariable d) item := by
  unfold Variable.compile at h
  split at h
  · cases h
  · rename_i e htype
    obtain ⟨t, ht, h⟩ := Compiled.bind_eq_ok.1 h
    cases h
    exact .ofVariable htype rfl (TypeExpr.binds scope e t ht)

theorem Function.compile_eq_ok {scope : Scope} {d : Function} {item : Item}
    (h : d.compile scope = .ok item) :
    Declared.Binds Scope.discipline scope (.ofFunction d) item := by
  unfold Function.compile at h
  obtain ⟨s, hs, h⟩ := Compiled.bind_eq_ok.1 h
  cases h
  obtain ⟨result, hresult, hbinds⟩ := bindFunction_binds hs
  exact .ofFunction hresult rfl hbinds

theorem TypeAlias.compile_eq_ok {scope : Scope} {d : TypeAlias} {item : Item} {entry : Entry}
    (h : d.compile scope = .ok (item, entry)) :
    (Declared.ofTypeAlias d).entry = some entry ∧
      Declared.Binds Scope.discipline scope (.ofTypeAlias d) item := by
  unfold TypeAlias.compile at h
  split at h
  · rename_i hlower
    obtain ⟨⟨inner, vs⟩, hdecl, h⟩ := Compiled.bind_eq_ok.1 h
    obtain ⟨body, hbody, h⟩ := Compiled.bind_eq_ok.1 h
    cases h
    refine ⟨?_, .ofTypeAlias hlower hdecl (TypeExpr.binds inner d.body body hbody)⟩
    rw [Declared.entry, Scope.length_of_declareTypeParameters hdecl]
  · cases h

theorem Interface.compile_eq_ok {scope : Scope} {d : Interface} {item : Item} {entry : Entry}
    (h : d.compile scope = .ok (item, entry)) :
    (Declared.ofInterface d).entry = some entry ∧
      Declared.Binds Scope.discipline scope (.ofInterface d) item := by
  unfold Interface.compile at h
  split at h
  · rename_i hupper
    split at h
    · cases h
    · obtain ⟨⟨inner, vs⟩, hdecl, h⟩ := Compiled.bind_eq_ok.1 h
      obtain ⟨fields, hfields, h⟩ := Compiled.bind_eq_ok.1 h
      cases h
      have hm := bindMembers_binds _ [] d.members fields hfields
      refine ⟨?_, .ofInterface hupper hdecl (.object hm.length hm.keys hm.distinct hm.types)⟩
      rw [Declared.entry, Scope.length_of_declareTypeParameters hdecl]
  · cases h

theorem Declared.compile_eq_ok {scope : Scope} {d : Declared} {item : Item}
    (h : d.compile scope = .ok item) : d.Binds Scope.discipline scope item := by
  cases d with
  | ofVariable d => exact Variable.compile_eq_ok h
  | ofFunction d => exact Function.compile_eq_ok h
  | ofTypeAlias d =>
    obtain ⟨⟨_, entry⟩, hd, h⟩ := Compiled.bind_eq_ok.1 h
    cases h
    exact (TypeAlias.compile_eq_ok hd).2
  | ofInterface d =>
    obtain ⟨⟨_, entry⟩, hd, h⟩ := Compiled.bind_eq_ok.1 h
    cases h
    exact (Interface.compile_eq_ok hd).2
  | ofMisnamed nameSpan => cases h

/-- The parameters of the type `t` of a module. -/
def selfParameters (items : List Item) : Option (List String) :=
  items.findSome? fun
    | .typeDeclaration d => if d.name = selfType then some d.parameters else none
    | _ => none

theorem selfParameters_interfaceItems (vs : List String) (fields : List Field) :
    selfParameters (interfaceItems vs fields) = some vs := by
  simp [selfParameters, interfaceItems]

/-! ## Sites -/

/-- What is seen at a point of a file. -/
structure View where
  scope : Scope
  /-- The numbers of the declarations that are in scope, the most recent first. -/
  visible : List Nat

/-- A declaration of a file and what it sees. -/
structure Site where
  view : View
  declared : Declared

namespace View

/-- What a file starts with. -/
def start : View := ⟨.prelude, []⟩

def inModule (name : String) (v : View) : View := { v with scope := v.scope.inModule name }

/-- What is seen behind declaration `number`. -/
def after (number : Nat) (entry : Option Entry) (v : View) : View :=
  match entry with
  | some e => ⟨v.scope.push e, number :: v.visible⟩
  | none => v

end View

/-- The declaration that stands in a statement of its own. -/
def Declaration.declared : Declaration → Option Declared
  | .ofVariable d => some (.ofVariable d)
  | .ofFunction d => some (.ofFunction d)
  | .ofTypeAlias d => some (.ofTypeAlias d)
  | .ofInterface d => some (.ofInterface d)
  | _ => none

/-- What a declaration brings into scope for the statements after it. -/
def Declaration.entry (d : Declaration) : Option Entry := d.declared.bind Declared.entry

mutual

/-- The sites of a declaration, numbered from `number` on. -/
def Declaration.sites (v : View) : Declaration → Nat → List Site
  | .ofModule _ nameSpan (.identifier _) _, _ => [⟨v, .ofMisnamed nameSpan⟩]
  | .ofModule _ _ (.string name) (some body), number => sitesOf (v.inModule name) body number
  | d, _ => d.declared.toList.map (Site.mk v)

/-- The sites of a statement, numbered from `number` on. -/
def Statement.sites (v : View) : Statement → Nat → List Site
  | ⟨_, declaration⟩, number => declaration.sites v number

/-- The sites of statements, numbered from `number` on. -/
def sitesOf (v : View) : List Statement → Nat → List Site
  | [], _ => []
  | s :: ss, number =>
    s.sites v number
      ++ sitesOf (v.after number s.declaration.entry) ss (number + (s.sites v number).length)

end

/-- The item of a site. -/
def Site.compile (s : Site) : Compiled Item := s.declared.compile s.view.scope

mutual

/-- A declaration gives the items of its sites, and brings in what it declares. -/
theorem Declaration.compile_eq (v : View) : (d : Declaration) → (number : Nat) →
    d.compile v.scope = (do
      let items ← (d.sites v number).mapM Site.compile
      return (items, (v.after number d.entry).scope))
  | .ofModule _ _ (.identifier _) _, _ => by
    rw [Declaration.compile, Declaration.sites, List.mapM_cons]
    rfl
  | .ofModule _ _ (.string name) (some body), number => by
    -- The scope behind the body is dropped on both sides.
    have ih := compileStatements_eq (v.inModule name) body number
    rw [Declaration.compile, Declaration.sites, ← ih]
    change (compileStatements (v.inModule name).scope body >>= _) = _
    cases compileStatements (v.inModule name).scope body <;> rfl
  | .ofVariable d, _ => by
    rw [Declaration.compile, Declaration.sites]
    · change _ = ([Site.mk v (.ofVariable d)].mapM Site.compile >>= _)
      rw [List.mapM_cons]
      change (d.compile v.scope >>= _) = ((d.compile v.scope >>= _) >>= _)
      cases d.compile v.scope <;> rfl
    all_goals nofun
  | .ofFunction d, _ => by
    rw [Declaration.compile, Declaration.sites]
    · change _ = ([Site.mk v (.ofFunction d)].mapM Site.compile >>= _)
      rw [List.mapM_cons]
      change (d.compile v.scope >>= _) = ((d.compile v.scope >>= _) >>= _)
      cases d.compile v.scope <;> rfl
    all_goals nofun
  | .ofTypeAlias d, number => by
    rw [Declaration.compile, Declaration.sites]
    · change _ = ([Site.mk v (.ofTypeAlias d)].mapM Site.compile >>= _)
      rw [List.mapM_cons]
      change (d.compile v.scope >>= _) = (((d.compile v.scope >>= _) >>= _) >>= _)
      cases h : d.compile v.scope with
      | error e => rfl
      | ok result =>
        have hentry : (Declaration.ofTypeAlias d).entry = some result.2 :=
          (TypeAlias.compile_eq_ok h).1
        rw [hentry]
        rfl
    all_goals nofun
  | .ofInterface d, number => by
    rw [Declaration.compile, Declaration.sites]
    · change _ = ([Site.mk v (.ofInterface d)].mapM Site.compile >>= _)
      rw [List.mapM_cons]
      change (d.compile v.scope >>= _) = (((d.compile v.scope >>= _) >>= _) >>= _)
      cases h : d.compile v.scope with
      | error e => rfl
      | ok result =>
        have hentry : (Declaration.ofInterface d).entry = some result.2 :=
          (Interface.compile_eq_ok h).1
        rw [hentry]
        rfl
    all_goals nofun
  | .ofModule _ _ (.string _) none, _ | .ofClass _, _ | .ofEnum _, _ | .ofNamespace .., _
  | .ofGlobal .., _ | .empty _, _ | .exportAsNamespace .., _ | .exportAssignment .., _
  | .exportList _, _ | .importing _, _ => by
    rw [Declaration.compile, Declaration.sites]
    · rfl
    all_goals nofun

theorem Statement.compile_eq (v : View) : (s : Statement) → (number : Nat) →
    s.compile v.scope = (do
      let items ← (s.sites v number).mapM Site.compile
      return (items, (v.after number s.declaration.entry).scope))
  | ⟨_, d⟩, number => by
    rw [Statement.compile, Statement.sites]
    exact Declaration.compile_eq v d number

/-- Statements give the items of their sites. -/
theorem compileStatements_eq (v : View) : (ss : List Statement) → (number : Nat) →
    Prod.fst <$> compileStatements v.scope ss = (sitesOf v ss number).mapM Site.compile
  | [], _ => by
    rw [compileStatements, sitesOf]
    rfl
  | s :: ss, number => by
    have hs := Statement.compile_eq v s number
    have hss := compileStatements_eq (v.after number s.declaration.entry) ss
      (number + (s.sites v number).length)
    rw [compileStatements, sitesOf, List.mapM_append, ← hss, hs]
    cases (s.sites v number).mapM Site.compile with
    | error e => rfl
    | ok items =>
      change Prod.fst <$> (compileStatements (v.after number s.declaration.entry).scope ss >>= _)
        = (Prod.fst <$> compileStatements (v.after number s.declaration.entry).scope ss >>= _)
      cases compileStatements (v.after number s.declaration.entry).scope ss <;> rfl

end

/-! ## What sites see -/

/-- A view that fits the sites of a file, at a point behind the first `count` of them: its scope has
what the visible declarations declare and then the types that every file starts with. -/
structure View.Fits (all : List Site) (count : Nat) (v : View) : Prop where
  entries : ∃ es : List Entry,
    v.visible.map (fun j => all[j]?.bind (·.declared.entry)) = es.map some ∧
      v.scope.entries = es ++ Scope.prelude.entries
  below : ∀ j ∈ v.visible, j < count
  sorted : v.visible.Pairwise (· > ·)
  outside : v.scope.interfaceName = none

namespace View.Fits

variable {all : List Site} {count : Nat} {v : View}

theorem start (all : List Site) : View.start.Fits all 0 where
  entries := ⟨[], rfl, rfl⟩
  below := by simp [View.start]
  sorted := .nil
  outside := rfl

theorem inModule (h : v.Fits all count) (name : String) : (v.inModule name).Fits all count :=
  ⟨h.entries, h.below, h.sorted, h.outside⟩

theorem mono (h : v.Fits all count) {count' : Nat} (hle : count ≤ count') : v.Fits all count' :=
  ⟨h.entries, fun j hj => Nat.lt_of_lt_of_le (h.below j hj) hle, h.sorted, h.outside⟩

/-- One more declaration, the one that stands at `count`. -/
theorem push (h : v.Fits all count) {e : Entry}
    (he : all[count]?.bind (·.declared.entry) = some e) :
    (v.after count (some e)).Fits all (count + 1) := by
  obtain ⟨es, hvisible, hentries⟩ := h.entries
  refine ⟨⟨e :: es, ?_, ?_⟩, ?_, ?_, h.outside⟩
  · simp only [View.after, List.map_cons, he, hvisible]
  · simp only [View.after, Scope.push, hentries, List.cons_append]
  · rintro j (_ | ⟨_, hj⟩)
    · exact Nat.lt_succ_self count
    · exact Nat.lt_succ_of_lt (h.below j hj)
  · exact List.pairwise_cons.2 ⟨fun j hj => h.below j hj, h.sorted⟩

end View.Fits

/-- The sites `sites` stand in `all` from `number` on. -/
def StandsAt (all : List Site) (number : Nat) (sites : List Site) : Prop :=
  ∀ k s, sites[k]? = some s → all[number + k]? = some s

theorem StandsAt.left {all xs ys : List Site} {number : Nat}
    (h : StandsAt all number (xs ++ ys)) : StandsAt all number xs := by
  intro k s hs
  have hk : k < xs.length := (List.getElem?_eq_some_iff.1 hs).1
  exact h k s (by rw [List.getElem?_append_left hk, hs])

theorem StandsAt.right {all xs ys : List Site} {number : Nat}
    (h : StandsAt all number (xs ++ ys)) : StandsAt all (number + xs.length) ys := by
  intro k s hs
  have hk := h (xs.length + k) s
  rw [List.getElem?_append_right (Nat.le_add_right _ _), Nat.add_sub_cancel_left] at hk
  rw [Nat.add_assoc]
  exact hk hs

/-- A declaration that brings a name into scope is a site itself. -/
theorem Declaration.sites_of_entry {d : Declaration} {e : Entry} (h : d.entry = some e)
    (v : View) (number : Nat) :
    ∃ declared, d.sites v number = [⟨v, declared⟩] ∧ declared.entry = some e := by
  cases d with
  | ofTypeAlias d => exact ⟨.ofTypeAlias d, by rw [Declaration.sites] <;> [rfl; nofun; nofun], h⟩
  | ofInterface d => exact ⟨.ofInterface d, by rw [Declaration.sites] <;> [rfl; nofun; nofun], h⟩
  | _ => cases h

theorem Declaration.fits_after {all : List Site} {v : View} {d : Declaration} {number : Nat}
    (hv : v.Fits all number) (hall : StandsAt all number (d.sites v number)) :
    (v.after number d.entry).Fits all (number + (d.sites v number).length) := by
  cases he : d.entry with
  | none => exact hv.mono (Nat.le_add_right _ _)
  | some e =>
    -- It stands at `number` itself, which is what becomes visible.
    obtain ⟨declared, hsites, hentry⟩ := d.sites_of_entry he v number
    rw [hsites] at hall ⊢
    refine hv.push ?_
    have hsite : all[number]? = some ⟨v, declared⟩ := hall 0 _ rfl
    rw [hsite]
    exact hentry

mutual

theorem Declaration.fits_of_mem_sites {all : List Site} (v : View) : (d : Declaration) →
    (number : Nat) → v.Fits all number → StandsAt all number (d.sites v number) →
    ∀ (k : Nat) (s : Site), (d.sites v number)[k]? = some s → s.view.Fits all (number + k)
  | .ofModule _ _ (.string name) (some body), number, hv, hall, k, s, hs => by
    rw [Declaration.sites] at hall hs
    exact fits_of_mem_sitesOf (v.inModule name) body number (hv.inModule name) hall k s hs
  | .ofModule _ _ (.identifier _) _, number, hv, _, k, s, hs => by
    rw [Declaration.sites] at hs
    obtain rfl := List.mem_singleton.1 (List.mem_of_getElem? hs)
    exact hv.mono (Nat.le_add_right _ _)
  | .ofModule _ _ (.string _) none, number, hv, _, k, s, hs | .ofVariable _, number, hv, _, k, s, hs
  | .ofFunction _, number, hv, _, k, s, hs | .ofTypeAlias _, number, hv, _, k, s, hs
  | .ofInterface _, number, hv, _, k, s, hs | .ofClass _, number, hv, _, k, s, hs
  | .ofEnum _, number, hv, _, k, s, hs | .ofNamespace .., number, hv, _, k, s, hs
  | .ofGlobal .., number, hv, _, k, s, hs | .empty _, number, hv, _, k, s, hs
  | .exportAsNamespace .., number, hv, _, k, s, hs | .exportAssignment .., number, hv, _, k, s, hs
  | .exportList _, number, hv, _, k, s, hs | .importing _, number, hv, _, k, s, hs => by
    rw [Declaration.sites] at hs
    · obtain ⟨declared, -, rfl⟩ := List.mem_map.1 (List.mem_of_getElem? hs)
      exact hv.mono (Nat.le_add_right _ _)
    all_goals nofun

theorem Statement.fits_of_mem_sites {all : List Site} (v : View) : (s : Statement) →
    (number : Nat) → v.Fits all number → StandsAt all number (s.sites v number) →
    ∀ (k : Nat) (x : Site), (s.sites v number)[k]? = some x → x.view.Fits all (number + k)
  | ⟨_, d⟩, number, hv, hall, k, x, hx => by
    rw [Statement.sites] at hall hx
    exact Declaration.fits_of_mem_sites v d number hv hall k x hx

/-- What every site sees fits the sites of the file. -/
theorem fits_of_mem_sitesOf {all : List Site} (v : View) : (ss : List Statement) →
    (number : Nat) → v.Fits all number → StandsAt all number (sitesOf v ss number) →
    ∀ (k : Nat) (x : Site), (sitesOf v ss number)[k]? = some x → x.view.Fits all (number + k)
  | [], _, _, _, k, x, hx => by
    rw [sitesOf] at hx
    cases hx
  | s :: ss, number, hv, hall, k, x, hx => by
    rw [sitesOf] at hall hx
    by_cases hk : k < (s.sites v number).length
    · rw [List.getElem?_append_left hk] at hx
      exact Statement.fits_of_mem_sites v s number hv hall.left k x hx
    · rw [List.getElem?_append_right (by omega)] at hx
      have hafter : (v.after number s.declaration.entry).Fits all
          (number + (s.sites v number).length) := by
        have hleft := hall.left
        obtain ⟨_, d⟩ := s
        rw [Statement.sites] at hleft ⊢
        exact Declaration.fits_after hv hleft
      have hfits := fits_of_mem_sitesOf _ ss _ hafter hall.right _ x hx
      rwa [show number + (s.sites v number).length + (k - (s.sites v number).length) = number + k
        from by omega] at hfits

end

/-! ## Files -/

/-- The sites of a file. -/
def File.sites (file : File) : List Site := sitesOf .start file.body 0

theorem File.fits_of_mem_sites {file : File} {k : Nat} {s : Site}
    (h : file.sites[k]? = some s) : s.view.Fits file.sites k := by
  have hfits := fits_of_mem_sitesOf .start file.body 0 (.start file.sites)
    (fun k s hs => by rwa [Nat.zero_add]) k s h
  rwa [Nat.zero_add] at hfits

theorem mapM_eq_ok {α β : Type} {f : α → Compiled β} {xs : List α} {ys : List β}
    (h : xs.mapM f = .ok ys) : List.Forall₂ (fun x y => f x = .ok y) xs ys := by
  induction xs generalizing ys with
  | nil =>
    cases h
    exact .nil
  | cons x xs ih =>
    rw [List.mapM_cons] at h
    obtain ⟨y, hy, h⟩ := Compiled.bind_eq_ok.1 h
    obtain ⟨ys, hys, h⟩ := Compiled.bind_eq_ok.1 h
    cases h
    exact .cons hy (ih hys)

theorem exists_left_of_forall₂ {α β : Type} {R : α → β → Prop} {xs : List α} {ys : List β}
    (h : List.Forall₂ R xs ys) {k : Nat} {y : β} (hy : ys[k]? = some y) :
    ∃ x, xs[k]? = some x ∧ R x y := by
  induction h generalizing k with
  | nil => cases hy
  | cons hR _ ih =>
    cases k with
    | zero => cases hy; exact ⟨_, rfl, hR⟩
    | succ k => exact ih hy

theorem exists_right_of_forall₂ {α β : Type} {R : α → β → Prop} {xs : List α} {ys : List β}
    (h : List.Forall₂ R xs ys) {k : Nat} {x : α} (hx : xs[k]? = some x) :
    ∃ y, ys[k]? = some y ∧ R x y :=
  exists_left_of_forall₂ (R := flip R) (List.Forall₂.flip h) hx

/-- A source is parsed to a file whose sites give the items, in order. -/
structure Compiles (source : String) (file : File) (items : List Item) : Prop where
  parsed : parse source = .ok file
  sites : List.Forall₂ (fun s item => s.compile = .ok item) file.sites items

theorem exists_compiles {source : String} {items : List Item} (h : bindingsOf source = .ok items) :
    ∃ file, Compiles source file items := by
  unfold bindingsOf at h
  split at h
  · cases h
  · rename_i file hfile
    refine ⟨file, hfile, mapM_eq_ok ?_⟩
    obtain ⟨⟨items', scope⟩, hitems, h⟩ := Compiled.bind_eq_ok.1 h
    cases h
    rw [File.sites, ← compileStatements_eq .start file.body 0]
    change Prod.fst <$> compileStatements .prelude file.body = _
    rw [hitems]
    rfl

namespace Compiles

variable {source : String} {file : File} {items : List Item} (h : Compiles source file items)

include h

theorem exists_site {k : Nat} {item : Item} (hk : items[k]? = some item) :
    ∃ s, file.sites[k]? = some s ∧ s.declared.Binds Scope.discipline s.view.scope item := by
  obtain ⟨s, hs, hcompile⟩ := exists_left_of_forall₂ h.sites hk
  exact ⟨s, hs, Declared.compile_eq_ok hcompile⟩

theorem exists_item {k : Nat} {s : Site} (hs : file.sites[k]? = some s) :
    ∃ item, items[k]? = some item ∧ s.declared.Binds Scope.discipline s.view.scope item := by
  obtain ⟨item, hitem, hcompile⟩ := exists_right_of_forall₂ h.sites hs
  exact ⟨item, hitem, Declared.compile_eq_ok hcompile⟩

end Compiles

end Ambient
