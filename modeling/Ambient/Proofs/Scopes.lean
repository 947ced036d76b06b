import Ambient.Proofs.Sites
/-!
# What is in scope inside a declaration

Inside a declaration the scope grows by type parameters and, in the body of an interface, by the
interface itself (`Scope.Inside`). So a name means a type parameter, the interface around, or what
it means where the declaration stands (`Inside.lookup_cases`); and there it means the most recent
declaration of that name that is visible, or a built-in type (`View.Fits.lookup_cases`).
-/

namespace Ambient

/-- The name of the type of an interface outside its module. -/
def pathToSelf (moduleName : String) : String := moduleName ++ "." ++ selfType

namespace Scope

theorem lookup_push (scope : Scope) (entry : Entry) (name : String) :
    (scope.push entry).lookup name
      = if entry.name = name then some entry else scope.lookup name := by
  unfold lookup push
  by_cases h : entry.name = name
  · simp [h]
  · simp [h]

theorem name_of_lookup {scope : Scope} {name : String} {entry : Entry}
    (h : scope.lookup name = some entry) : entry.name = name := by
  simpa using List.find?_some h

theorem target_self {c : Scope} {name : String} (h : c.interfaceName = some name) (arity : Nat)
    (ts : List Ty) : c.target ts (.interface name arity) = .constructor selfType ts :=
  if_pos h

theorem target_interface {c : Scope} {name : String} (h : c.interfaceName ≠ some name) (arity : Nat)
    (ts : List Ty) : c.target ts (.interface name arity) = .constructor (pathToSelf name) ts :=
  if_neg h

/-- A reference is a constructor that is applied to the arguments, or takes none. -/
theorem target_cases (c : Scope) (e : Entry) :
    (∃ path, ∀ ts, c.target ts e = .constructor path ts) ∨
      e.arity = 0 ∧ ∀ ts, c.target ts e = c.target [] e := by
  cases e with
  | typeVariable => exact .inr ⟨rfl, fun _ => rfl⟩
  | typeAlias name => exact .inl ⟨name, fun _ => rfl⟩
  | interface name =>
    left
    by_cases h : c.interfaceName = some name
    · exact ⟨_, target_self h _⟩
    · exact ⟨_, target_interface h _⟩
  | builtIn b =>
    cases b with
    | array | readonlyArray | promise => exact .inl ⟨_, fun _ => rfl⟩
    | _ => exact .inr ⟨rfl, fun _ => rfl⟩

/-- Type parameters come into scope one after the other. -/
theorem declareTypeParameters_keeps {P : Scope → Prop}
    (hpush : ∀ c name printed, P c → P (c.push (.typeVariable name printed))) {c inner : Scope}
    {ps : List TypeParameter} {vs : List String} (hc : P c)
    (hdecl : c.declareTypeParameters ps = .ok (inner, vs)) : P inner := by
  induction ps generalizing c vs with
  | nil =>
    unfold declareTypeParameters at hdecl
    cases hdecl
    exact hc
  | cons p ps ih =>
    unfold declareTypeParameters at hdecl
    split at hdecl
    · obtain ⟨⟨scope, others⟩, hothers, hdecl⟩ := Compiled.bind_eq_ok.1 hdecl
      cases hdecl
      exact ih (hpush _ _ _ hc) hothers
    · cases hdecl

/-- The interface whose body is around, by its name and the number of its type parameters. -/
abbrev Own := Option (String × Nat)

/-- A scope inside a declaration that stands in `base`. -/
inductive Inside (base : Scope) : Own → Scope → Prop
  | here : base.interfaceName = none → Inside base none base
  | typeVariable {own : Own} {c : Scope} {name printed : String} :
    Inside base own c → Inside base own (c.push (.typeVariable name printed))
  | interface {c : Scope} {name : String} {arity : Nat} :
    Inside base none c → Inside base (some (name, arity)) (discipline.enters c name arity)

namespace Inside

variable {base c : Scope} {own : Own}

theorem declares (h : Inside base own c) {ps : List TypeParameter} {inner : Scope}
    {vs : List String} (hdecl : discipline.declares c ps inner vs) : Inside base own inner :=
  declareTypeParameters_keeps (P := Inside base own) (fun _ _ _ h => h.typeVariable) h hdecl

theorem interfaceName (h : Inside base own c) : c.interfaceName = own.map (·.1) := by
  induction h with
  | here h => exact h
  | typeVariable _ ih => exact ih
  | interface _ _ => rfl

theorem interfaceName_ne (h : Inside base own c) {name : String} (hown : ∀ x ∈ own, x.1 ≠ name) :
    c.interfaceName ≠ some name := by
  rw [h.interfaceName, ne_eq, Option.map_eq_some_iff]
  rintro ⟨x, hx, hxn⟩
  exact hown x hx hxn

/-- What a name can mean inside a declaration. -/
theorem lookup_cases (h : Inside base own c) {name : String} {entry : Entry}
    (hl : c.lookup name = some entry) :
    (∃ printed, entry = .typeVariable name printed) ∨
      (∃ arity, own = some (name, arity) ∧ entry = .interface name arity) ∨
      (base.lookup name = some entry ∧ ∀ x ∈ own, x.1 ≠ name) := by
  induction h with
  | here _ => exact .inr (.inr ⟨hl, nofun⟩)
  | @typeVariable _ _ n printed _ ih =>
    rw [lookup_push] at hl
    split at hl
    · rename_i hn
      cases hl
      exact .inl ⟨printed, by rw [← hn]; rfl⟩
    · exact ih hl
  | @interface c n arity _ ih =>
    change (c.push (.interface n arity)).lookup name = _ at hl
    rw [lookup_push] at hl
    split at hl
    · rename_i hn
      cases hl
      obtain rfl : n = name := hn
      exact .inr (.inl ⟨arity, rfl, rfl⟩)
    · rename_i hn
      rcases ih hl with hvar | ⟨_, ⟨⟩, _⟩ | ⟨hbase, _⟩
      · exact .inl hvar
      · refine .inr (.inr ⟨hbase, ?_⟩)
        rintro _ ⟨⟩
        exact hn

end Inside

theorem builtIn_of_mem_prelude {e : Entry} (h : e ∈ prelude.entries) : ∃ b, e = .builtIn b := by
  have hentries : prelude.entries = BuiltIn.all.reverse.map .builtIn := rfl
  rw [hentries] at h
  obtain ⟨b, -, rfl⟩ := List.mem_map.1 h
  exact ⟨b, rfl⟩

end Scope

/-- Whether the site declares a type of that name. -/
def Site.declares (s : Site) (name : String) : Bool := s.declared.entry.any (·.name == name)

/-- The number of the declaration that a name means, if it is not built in. -/
def View.origin (all : List Site) (v : View) (name : String) : Option Nat :=
  v.visible.find? fun j => all[j]?.any (·.declares name)

theorem View.Fits.lookup_cases {all : List Site} {count : Nat} {v : View} (h : v.Fits all count)
    {name : String} {entry : Entry} (hl : v.scope.lookup name = some entry) :
    (∃ j s, v.origin all name = some j ∧ all[j]? = some s ∧ s.declared.entry = some entry) ∨
      (v.origin all name = none ∧ ∃ b, entry = .builtIn b) := by
  obtain ⟨es, hes, hentries⟩ := h.entries
  unfold Scope.lookup at hl
  rw [hentries, List.find?_append] at hl
  unfold View.origin
  generalize v.visible = visible at hes
  clear hentries
  induction es generalizing visible with
  | nil =>
    rw [List.map_nil, List.map_eq_nil_iff] at hes
    subst hes
    rw [List.find?_nil, Option.none_or] at hl
    exact .inr ⟨rfl, Scope.builtIn_of_mem_prelude (List.mem_of_find?_eq_some hl)⟩
  | cons e es ih =>
    obtain ⟨j, js, rfl, hj, hjs⟩ := List.map_eq_cons_iff.1 hes
    obtain ⟨s, hs, he⟩ := Option.bind_eq_some_iff.1 hj
    by_cases hname : e.name = name
    · left
      refine ⟨j, s, ?_, hs, ?_⟩
      · simp [hs, Site.declares, he, hname]
      · rw [List.find?_cons_of_pos (by simpa using hname), Option.some_or] at hl
        rw [he, hl]
    · have hskip : all[j]?.any (·.declares name) = false := by
        simp [hs, Site.declares, he, hname]
      rw [List.find?_cons, hskip]
      rw [List.find?_cons_of_neg (by simpa using hname)] at hl
      exact ih hl js hjs

end Ambient
