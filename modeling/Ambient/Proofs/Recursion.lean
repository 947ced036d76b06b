import Ambient.Proofs.Capture
import Ambient.Proofs.Parts
/-!
# Recursive types

Bindings are recursive where the declarations are. An alias is not in scope in its own body, so a
constructor there that is written like it must mean an earlier type: the alias is marked for that if
and only if there is one. An interface is in scope in its own body, where its type is `t`: a type of
the body is bound to `t` if and only if it is a reference to the interface itself, and not to
another interface of that name or to an alias that is written like that (`Site.RecursesAs`).
-/

namespace Ambient

open Name (lowerChars typePath)

/-! ## Constructors that are printed as a name -/

/-- A type constructor without a path, printed as `w`. -/
def PrintedAlone (w : List Char) (path : String) : Prop := '.' ∉ path.toList ∧ typePath path = w

instance (w : List Char) (path : String) : Decidable (PrintedAlone w path) :=
  inferInstanceAs (Decidable (_ ∧ _))

/-- A type constructor that is printed like the own type of an interface. -/
abbrev PrintedAsSelf (path : String) : Prop := PrintedAlone (lowerChars selfType.toList) path

theorem printedAsSelf_selfType : PrintedAsSelf selfType := by decide

theorem PrintedAlone.headName_eq {w : List Char} {path : String} (h : PrintedAlone w path) :
    headName path = w := by
  rw [headName_of_not_mem h.1, ← Name.typePath_of_not_mem h.1, h.2]

theorem namesAlias_iff {aliasName name : String} :
    namesAlias aliasName name ↔ PrintedAlone (lowerChars aliasName.toList) name := by
  unfold namesAlias PrintedAlone
  by_cases hdot : '.' ∈ name.toList
  · simp [hdot]
  · simp [hdot, Name.typePath_of_not_mem hdot, lowerIdent, String.ofList_inj]

theorem Ty.exists_mem_of_anyName {p : String → Bool} {t : Ty} (h : t.anyName p) :
    ∃ a ∈ t.applications, p a.1 := by
  induction t using Ty.induct with
  | constructor name ts ih =>
    rw [Ty.anyName, Ty.anyNameIn_eq_any, Bool.or_eq_true, List.any_eq_true] at h
    rw [Ty.applications]
    rcases h with h | ⟨t, ht, h⟩
    · exact ⟨_, List.mem_cons_self, h⟩
    · obtain ⟨a, ha, hp⟩ := ih t ht h
      exact ⟨a, List.mem_cons_of_mem _ (Ty.mem_applicationsIn.2 ⟨t, ht, ha⟩), hp⟩
  | ofVariable name => cases h
  | arrow q ps r ihps ihr =>
    rw [Ty.anyName, Ty.anyNameIn_eq_any, Bool.or_eq_true, List.any_eq_true] at h
    rw [Ty.applications]
    rcases h with ⟨t, ht, h⟩ | h
    · obtain ⟨a, ha, hp⟩ := ihps t ht h
      exact ⟨a, List.mem_append_left _ (Ty.mem_applicationsIn.2 ⟨t, ht, ha⟩), hp⟩
    · obtain ⟨a, ha, hp⟩ := ihr h
      exact ⟨a, List.mem_append_right _ ha, hp⟩
  | tuple ts ih =>
    rw [Ty.anyName, Ty.anyNameIn_eq_any, List.any_eq_true] at h
    obtain ⟨t, ht, h⟩ := h
    obtain ⟨a, ha, hp⟩ := ih t ht h
    exact ⟨a, Ty.mem_applicationsIn.2 ⟨t, ht, ha⟩, hp⟩
  | object fs ih =>
    rw [Ty.anyName, Ty.anyNameOf_eq_any, List.any_eq_true] at h
    obtain ⟨f, hf, h⟩ := h
    obtain ⟨a, ha, hp⟩ := ih f hf h
    exact ⟨a, Ty.mem_applicationsOf.2 ⟨f, hf, ha⟩, hp⟩

/-- The body of an alias has a constructor that is printed like the alias exactly if the alias is
marked. -/
theorem anyName_namesAlias_iff {name : String} {body : Ty} :
    body.anyName (namesAlias name) ↔
      ∃ a ∈ body.applications, PrintedAlone (lowerChars name.toList) a.1 := by
  simp only [← namesAlias_iff]
  constructor
  · exact Ty.exists_mem_of_anyName
  · rintro ⟨a, ha, hp⟩
    exact Ty.anyName_of_mem hp ha

/-! ## The entry of an interface in its own body -/

namespace Scope

/-- A name means the entry that stands on top of the entries `below`: no entry further up has that
name. -/
def Finds (c : Scope) (name : String) (entry : Entry) (below : List Entry) : Prop :=
  ∃ newer, c.entries = newer ++ entry :: below ∧ entry.name = name ∧ ∀ e ∈ newer, e.name ≠ name

theorem Finds.lookup {c : Scope} {name : String} {entry : Entry} {below : List Entry}
    (h : c.Finds name entry below) : c.lookup name = some entry := by
  obtain ⟨newer, hentries, hname, hnewer⟩ := h
  have hskip : newer.find? (·.name == name) = none := by simpa using hnewer
  unfold Scope.lookup
  rw [hentries, List.find?_append, hskip, Option.none_or]
  exact List.find?_cons_of_pos (by simpa using hname)

/-- A scope in the body of the interface `x` with `n` type parameters, which are in scope in
`inner`. Only type variables have come into scope since the body was entered. -/
structure InBody (base inner : Scope) (x : String) (n : Nat) (c : Scope) : Prop where
  inside : base.Inside (some (x, n)) c
  entries : ∃ newer, c.entries = newer ++ .interface x n :: inner.entries ∧
    ∀ e ∈ newer, ∃ name printed, e = .typeVariable name printed

namespace InBody

variable {base inner c : Scope} {x : String} {n : Nat}

theorem enters (h : base.Inside none inner) : InBody base inner x n (discipline.enters inner x n) :=
  ⟨.interface h, [], rfl, by simp⟩

theorem push (h : InBody base inner x n c) (name printed : String) :
    InBody base inner x n (c.push (.typeVariable name printed)) := by
  obtain ⟨hinside, newer, hentries, hnewer⟩ := h
  refine ⟨hinside.typeVariable, .typeVariable name printed :: newer, ?_, ?_⟩
  · rw [Scope.push, hentries, List.cons_append]
  · exact List.forall_mem_cons.2 ⟨⟨name, printed, rfl⟩, hnewer⟩

theorem declares (h : InBody base inner x n c) {ps : List TypeParameter} {c' : Scope}
    {vs : List String} (hdecl : c.declareTypeParameters ps = .ok (c', vs)) :
    InBody base inner x n c' :=
  declareTypeParameters_keeps (fun _ name printed h => h.push name printed) h hdecl

/-- An interface that is found under the name of the interface around is that interface. -/
theorem finds (h : InBody base inner x n c) {arity : Nat}
    (hlookup : c.lookup x = some (.interface x arity)) :
    c.Finds x (.interface x n) inner.entries := by
  obtain ⟨-, newer, hentries, hnewer⟩ := h
  refine ⟨newer, hentries, rfl, fun e he hname => ?_⟩
  unfold Scope.lookup at hlookup
  rw [hentries, List.find?_append] at hlookup
  cases hfound : newer.find? (·.name == x) with
  | none => exact absurd (by simpa using hname) (List.find?_eq_none.1 hfound e he)
  | some found =>
    obtain ⟨name, printed, rfl⟩ := hnewer found (List.mem_of_find?_eq_some hfound)
    rw [hfound, Option.some_or] at hlookup
    cases hlookup

theorem child (h : InBody base inner x n c) {part part' : Part} {c' : Scope}
    (hchild : Part.Child c part c' part') : InBody base inner x n c' := by
  cases hchild with
  | passed hdecl _ => exact h.declares hdecl
  | result hdecl => exact h.declares hdecl
  | _ => exact h

theorem within (h : InBody base inner x n c) {part part' : Part} {c' : Scope}
    (hwithin : Part.Within c part c' part') : InBody base inner x n c' := by
  induction hwithin with
  | refl => exact h
  | child hchild _ ih => exact ih (h.child hchild)

end InBody

end Scope

/-! ## References in the body -/

theorem Ty.mem_applications_constructor {path : String} {ts : List Ty} {a : String × Nat} :
    a ∈ (Ty.constructor path ts).applications ↔
      a = (path, ts.length) ∨ ∃ t ∈ ts, a ∈ t.applications := by
  rw [Ty.applications, List.mem_cons, Ty.mem_applicationsIn]

theorem TypeExpr.exists_refers {c : Scope} {span : Span} {name : EntityName}
    {arguments : Option (List TypeExpr)} {t : Ty}
    (h : (TypeExpr.reference span name arguments).bind c = .ok t) :
    ∃ m ts, name = .identifier m ∧ Scope.discipline.refers c m ts t := by
  rw [TypeExpr.bind] at h
  obtain ⟨entry, hentry, h⟩ := Compiled.bind_eq_ok.1 h
  obtain ⟨ts, hts, rfl⟩ := Compiled.map_eq_ok.1 h
  obtain ⟨m, rfl, hlookup, harity, hhidden⟩ := Scope.resolve_eq_ok hentry
  refine ⟨m, ts, rfl, entry, hlookup, ?_, hhidden, rfl⟩
  rw [← harity, (bindArguments_binds c arguments ts hts).1]

section

variable {source : String} {file : File} {items : List Item} {k : Nat} {s : Site}
  {inner c : Scope} {x : String} {n : Nat}

/-- A reference in the body of an interface is bound to `t`, with an argument for each type
parameter, if it means the interface. Otherwise its type is not printed as `t`. -/
theorem refers_cases (hfile : Compiles source file items) (hs : file.sites[k]? = some s)
    (hc : s.view.scope.InBody inner x n c) {m : String} {ts : List Ty} {t : Ty}
    (href : Scope.discipline.refers c m ts t) :
    (c.Finds m (.interface x n) inner.entries ∧ t = .constructor selfType ts ∧ ts.length = n) ∨
      ¬ c.Finds m (.interface x n) inner.entries ∧
        ((∃ path, t = .constructor path ts ∧ ¬ PrintedAsSelf path) ∨
          ∀ a ∈ t.applications, ¬ PrintedAsSelf a.1) := by
  obtain ⟨entry, hlookup, hlen, hhidden, rfl⟩ := href
  have hfound : c.Finds m (.interface x n) inner.entries → entry = .interface x n := fun h =>
    Option.some.inj (hlookup.symm.trans h.lookup)
  rcases hc.inside.lookup_cases hlookup with ⟨printed, rfl⟩ | ⟨arity, hown, rfl⟩ | ⟨hbase, hforeign⟩
  · refine .inr ⟨fun h => ?_, .inr (by simp [Scope.target, Ty.applications])⟩
    cases hfound h
  · cases hown
    exact .inl ⟨hc.finds hlookup, Scope.target_self hc.inside.interfaceName _ _, hlen⟩
  · right
    constructor
    · intro h
      obtain ⟨_, _, hname, _⟩ := h
      exact hforeign _ rfl hname
    · have hout := hc.inside.interfaceName_ne hforeign
      have hin : c.interfaceName ≠ none := by
        rw [hc.inside.interfaceName]
        simp
      have hhead : ∀ a ∈ (c.target [] entry).applications, ¬ PrintedAsSelf a.1 := by
        intro a ha hself
        refine headName_ne_selfType hfile hs hbase hin hout hhidden ha ?_
        rw [hself.headName_eq, headName_selfType]
        decide
      rcases c.target_cases entry with ⟨path, htarget⟩ | ⟨-, htarget⟩
      · refine .inl ⟨path, htarget ts, hhead (path, 0) ?_⟩
        rw [htarget, Ty.mem_applications_constructor]
        exact .inl rfl
      · rw [htarget]
        exact .inr hhead

/-- A reference in the body is printed as `t` exactly if it means the interface. -/
theorem printedAsSelf_reference_iff (hfile : Compiles source file items)
    (hs : file.sites[k]? = some s) (hc : s.view.scope.InBody inner x n c) {span : Span}
    {name : EntityName} {arguments : Option (List TypeExpr)} {t : Ty}
    (h : (TypeExpr.reference span name arguments).bind c = .ok t) :
    (∃ path ts, t = .constructor path ts ∧ PrintedAsSelf path) ↔
      ∃ m, name = .identifier m ∧ c.Finds m (.interface x n) inner.entries := by
  obtain ⟨m, ts, rfl, href⟩ := TypeExpr.exists_refers h
  rcases refers_cases hfile hs hc href with
    ⟨hfinds, rfl, -⟩ | ⟨hnot, ⟨path, rfl, hpath⟩ | hnone⟩
  · exact ⟨fun _ => ⟨m, rfl, hfinds⟩, fun _ => ⟨selfType, ts, rfl, printedAsSelf_selfType⟩⟩
  · constructor
    · rintro ⟨_, _, heq, hself⟩
      cases heq
      exact absurd hself hpath
    · rintro ⟨_, heq, hfinds⟩
      cases heq
      exact absurd hfinds hnot
  · constructor
    · rintro ⟨path, us, rfl, hself⟩
      exact absurd hself (hnone _ (Ty.mem_applications_constructor.2 (.inl rfl)))
    · rintro ⟨_, heq, hfinds⟩
      cases heq
      exact absurd hfinds hnot

/-- There is a reference in the part that means the entry on top of the entries `below`. -/
def Part.RefersTo (own : Entry) (below : List Entry) (c : Scope) (part : Part) : Prop :=
  ∃ c' span m arguments,
    part.Within c c' (.type (.reference span (.identifier m) arguments)) ∧ c'.Finds m own below

theorem Part.RefersTo.of_child {own : Entry} {below : List Entry} {c c' : Scope}
    {part part' : Part} (hchild : Part.Child c part c' part')
    (h : part'.RefersTo own below c') : part.RefersTo own below c := by
  obtain ⟨c'', span, m, arguments, hwithin, hfinds⟩ := h
  exact ⟨c'', span, m, arguments, .child hchild hwithin, hfinds⟩

theorem Literal.not_printedAsSelf {l : Literal} {a : String × Nat}
    (ha : a ∈ l.target.applications) : ¬ PrintedAsSelf a.1 := by
  cases l with
  | string | number | boolean =>
    rw [List.mem_singleton.1 ha]
    decide

theorem mem_applications_optionally {t : Ty} {optional : Bool} {a : String × Nat}
    (ha : a ∈ (t.optionally optional).applications) (hself : PrintedAsSelf a.1) :
    a ∈ t.applications := by
  have hundefined : ¬ PrintedAsSelf "Js.undefined" := by decide
  unfold Ty.optionally Ty.orUndefined at ha
  split at ha
  · rcases Ty.mem_applications_constructor.1 ha with rfl | ⟨u, hu, ha⟩
    · exact absurd hself hundefined
    · rwa [List.mem_singleton.1 hu] at ha
  · exact ha

/-- Whatever is printed as `t` in a type of the body comes from a reference to the interface. -/
theorem refersTo_of_printedAsSelf (hfile : Compiles source file items)
    (hs : file.sites[k]? = some s) {part : Part} {t : Ty}
    (hb : Binds Scope.discipline c part t) (hc : s.view.scope.InBody inner x n c)
    {a : String × Nat} (ha : a ∈ t.applications) (hself : PrintedAsSelf a.1) :
    a = (selfType, n) ∧ part.RefersTo (.interface x n) inner.entries c := by
  have harray : ¬ PrintedAsSelf "array" := by decide
  have hnullable : ¬ PrintedAsSelf "Js.Nullable.t" := by decide
  have hunit : ∀ a ∈ Ty.unit.applications, ¬ PrintedAsSelf a.1 := by decide
  induction hb generalizing a with
  | @reference c span name arguments ts t hlen _ href ih =>
    have hargument : (∃ u ∈ ts, a ∈ u.applications) → a = (selfType, n) ∧
        Part.RefersTo (.interface x n) inner.entries c
          (.type (.reference span (.identifier name) arguments)) := by
      rintro ⟨u, hu, ha⟩
      obtain ⟨e, he⟩ := exists_mem_zip_of_mem hlen hu
      obtain ⟨heq, hrefers⟩ := ih _ he hc ha hself
      exact ⟨heq, hrefers.of_child (.argument (List.of_mem_zip he).1)⟩
    rcases refers_cases hfile hs hc href with
      ⟨hfinds, rfl, hn⟩ | ⟨-, ⟨path, rfl, hpath⟩ | hnone⟩
    · rcases Ty.mem_applications_constructor.1 ha with rfl | ha
      · exact ⟨by rw [hn], c, span, name, arguments, .refl, hfinds⟩
      · exact hargument ha
    · rcases Ty.mem_applications_constructor.1 ha with rfl | ha
      · exact absurd hself hpath
      · exact hargument ha
    · exact absurd hself (hnone a ha)
  | literal => exact absurd hself (Literal.not_printedAsSelf ha)
  | array _ ih =>
    rcases Ty.mem_applications_constructor.1 ha with rfl | ⟨u, hu, ha⟩
    · exact absurd hself harray
    · rw [List.mem_singleton.1 hu] at ha
      obtain ⟨heq, hrefers⟩ := ih hc ha hself
      exact ⟨heq, hrefers.of_child .element⟩
  | tuple _ hlen _ ih =>
    obtain ⟨u, hu, ha⟩ := Ty.mem_applicationsIn.1 ha
    obtain ⟨e, he⟩ := exists_mem_zip_of_mem hlen hu
    obtain ⟨heq, hrefers⟩ := ih _ he hc ha hself
    exact ⟨heq, hrefers.of_child (.component (List.of_mem_zip he).1)⟩
  | nullable _ _ _ ih =>
    rcases Ty.mem_applications_constructor.1 ha with rfl | ⟨u, hu, ha⟩
    · exact absurd hself hnullable
    · rw [List.mem_singleton.1 hu] at ha
      obtain ⟨heq, hrefers⟩ := ih hc ha hself
      exact ⟨heq, hrefers.of_child (.arm (by simp))⟩
  | alike hne _ ih =>
    obtain ⟨arm, arms, rfl⟩ := List.exists_cons_of_ne_nil hne
    obtain ⟨heq, hrefers⟩ := ih arm List.mem_cons_self hc ha hself
    exact ⟨heq, hrefers.of_child (.arm List.mem_cons_self)⟩
  | function _ _ ih =>
    obtain ⟨heq, hrefers⟩ := ih hc ha hself
    exact ⟨heq, hrefers.of_child .function⟩
  | object hlen _ _ _ ih =>
    obtain ⟨f, hf, ha⟩ := Ty.mem_applicationsOf.1 ha
    obtain ⟨m, hm⟩ := exists_mem_zip_of_mem hlen hf
    obtain ⟨heq, hrefers⟩ := ih _ hm hc ha hself
    exact ⟨heq, hrefers.of_child (.member (List.of_mem_zip hm).1)⟩
  | parenthesized _ ih =>
    obtain ⟨heq, hrefers⟩ := ih hc ha hself
    exact ⟨heq, hrefers.of_child .inner⟩
  | parameter htype _ _ ih =>
    obtain ⟨heq, hrefers⟩ := ih hc (mem_applications_optionally ha hself) hself
    exact ⟨heq, hrefers.of_child (.parameter htype)⟩
  | @signature c typeParameters parameters result inner' vs ts r hdecl hlen _ _ ihps ihr =>
    have hc' := hc.declares hdecl
    rw [Ty.applications] at ha
    rcases List.mem_append.1 ha with ha | ha
    · obtain ⟨u, hu, ha⟩ := Ty.mem_applicationsIn.1 ha
      split at hu
      · rw [List.mem_singleton.1 hu] at ha
        exact absurd hself (hunit a ha)
      · obtain ⟨p, hp⟩ := exists_mem_zip_of_mem hlen hu
        obtain ⟨heq, hrefers⟩ := ihps _ hp hc' ha hself
        exact ⟨heq, hrefers.of_child (.passed hdecl (List.of_mem_zip hp).1)⟩
    · obtain ⟨heq, hrefers⟩ := ihr hc' ha hself
      exact ⟨heq, hrefers.of_child (.result hdecl)⟩
  | property _ _ ih =>
    obtain ⟨heq, hrefers⟩ := ih hc (mem_applications_optionally ha hself) hself
    exact ⟨heq, hrefers.of_child .property⟩
  | method _ _ _ ih =>
    obtain ⟨heq, hrefers⟩ := ih hc (mem_applications_optionally ha hself) hself
    exact ⟨heq, hrefers.of_child .method⟩

/-- Every reference to the interface is printed as `t` in the type of what it stands in. -/
theorem printedAsSelf_of_refersTo (hfile : Compiles source file items)
    (hs : file.sites[k]? = some s) {part : Part} {t : Ty} (h : part.BoundTo c t)
    (hc : s.view.scope.InBody inner x n c)
    (hrefers : part.RefersTo (.interface x n) inner.entries c) :
    ∃ a ∈ t.applications, PrintedAsSelf a.1 := by
  obtain ⟨c', span, m, arguments, hwithin, hfinds⟩ := hrefers
  generalize hpart : Part.type (.reference span (.identifier m) arguments) = target at hwithin
  induction hwithin generalizing t with
  | refl =>
    subst hpart
    obtain ⟨path, ts, rfl, hself⟩ := (printedAsSelf_reference_iff hfile hs hc h).2 ⟨m, rfl, hfinds⟩
    exact ⟨_, Ty.mem_applications_constructor.2 (.inl rfl), hself⟩
  | child hchild hwithin ih =>
    obtain ⟨t', hbound, ⟨e, rfl, hnullish⟩ | hinherits⟩ := h.child hchild
    · -- An arm that is left out is a built-in type and has no parts.
      obtain ⟨span', name, rfl, hlookup⟩ := hnullish
      cases hwithin with
      | refl =>
        cases hpart
        rw [hfinds.lookup] at hlookup
        rcases hlookup with hlookup | hlookup
        · cases hlookup
        · cases hlookup
      | child hargument _ =>
        cases hargument with
        | argument he => cases he
    · obtain ⟨a, ha, hself⟩ := ih hbound (hc.child hchild) hfinds hpart
      by_contra hnone
      have hnot : ∀ a ∈ t.applications, ¬ PrintedAsSelf a.1 := by simpa using hnone
      exact hinherits _ (inherits_applications fun path => ¬ PrintedAsSelf path) hnot a ha hself

/-! ## Types that are bound to `t` -/

/-- The first type is another way to write the second one: in parentheses, or as an arm of a
union. -/
inductive TypeExpr.Yields : TypeExpr → TypeExpr → Prop
  | self {e} : Yields e e
  | parenthesized {span e r} : Yields e r → Yields (.parenthesized span e) r
  | union {span arms a r} : a ∈ arms → Yields a r → Yields (.union span arms) r

/-- A type of the body is bound to a type that is printed as `t` only if it is another way to write
a reference to the interface. -/
theorem exists_yields (hfile : Compiles source file items) (hs : file.sites[k]? = some s)
    (hc : s.view.scope.InBody inner x n c) {path : String} {ts : List Ty}
    (hself : PrintedAsSelf path) : (e : TypeExpr) → e.bind c = .ok (.constructor path ts) →
    ∃ span m arguments, e.Yields (.reference span (.identifier m) arguments) ∧
      c.Finds m (.interface x n) inner.entries ∧
      (TypeExpr.reference span (.identifier m) arguments).bind c = .ok (.constructor path ts)
  | .reference span name arguments, h => by
    obtain ⟨m, rfl, hfinds⟩ := (printedAsSelf_reference_iff hfile hs hc h).1 ⟨path, ts, rfl, hself⟩
    exact ⟨span, m, arguments, .self, hfinds, h⟩
  | .literal _ (.string _), h | .literal _ (.number _), h | .literal _ (.boolean _), h => by
    rw [TypeExpr.bind] at h
    cases h
    exact absurd hself (by decide)
  | .array .., h => by
    rw [TypeExpr.bind] at h
    obtain ⟨u, -, heq⟩ := Compiled.map_eq_ok.1 h
    cases heq
    exact absurd hself (by decide)
  | .tuple .., h => by
    rw [TypeExpr.bind] at h
    split at h
    · cases h
    · obtain ⟨us, -, heq⟩ := Compiled.map_eq_ok.1 h
      cases heq
  | .union _ [], h => by
    rw [TypeExpr.bind] at h
    cases h
  | .union _ (arm :: arms), h => by
    by_cases hany : ∃ a ∈ arm :: arms, c.Nullish a
    · obtain ⟨_, u, -, -, heq⟩ := (TypeExpr.bind_union_of_nullish hany).1 h
      cases heq
      exact absurd hself (by decide)
    · have hnone : ∀ a ∈ arm :: arms, ¬ c.Nullish a := by simpa using hany
      have harm := ((TypeExpr.bind_union_of_proper hnone).1 h).2 arm List.mem_cons_self
      obtain ⟨span, m, arguments, hyields, hfound⟩ := exists_yields hfile hs hc hself arm harm
      exact ⟨span, m, arguments, .union List.mem_cons_self hyields, hfound⟩
  | .function .., h => by
    rw [TypeExpr.bind] at h
    obtain ⟨_, _, _, _, _, _, _, _, heq⟩ := Part.boundTo_signature h
    cases heq
  | .object .., h => by
    rw [TypeExpr.bind] at h
    obtain ⟨fields, -, heq⟩ := Compiled.map_eq_ok.1 h
    cases heq
  | .parenthesized _ e, h => by
    rw [TypeExpr.bind] at h
    obtain ⟨span, m, arguments, hyields, hfound⟩ := exists_yields hfile hs hc hself e h
    exact ⟨span, m, arguments, .parenthesized hyields, hfound⟩
  | .intersection .., h | .constructor .., h | .indexedAccess .., h | .query .., h | .keyOf .., h
  | .this .., h => by
    rw [TypeExpr.bind] at h
    cases h

/-- How a type in the body of an interface with `n` type parameters refers to the interface, whose
entry `own` stands on top of the entries `below`. -/
structure RefersExactly (own : Entry) (below : List Entry) (n : Nat) (c : Scope) (e : TypeExpr)
    (t : Ty) : Prop where
  bound : e.bind c = .ok t
  /-- The type of a reference is printed as `t` if it means the interface, and not otherwise. -/
  reference : ∀ span name arguments, e = .reference span name arguments →
    ((∃ path ts, t = .constructor path ts ∧ PrintedAsSelf path) ↔
      ∃ m, name = .identifier m ∧ c.Finds m own below)
  /-- No other type is printed as `t`, unless it is such a reference in parentheses or the one type
  of all arms of a union. -/
  head : (∃ path ts, t = .constructor path ts ∧ PrintedAsSelf path) ↔
    ∃ span m arguments, e.Yields (.reference span (.identifier m) arguments) ∧
      c.Finds m own below ∧ (TypeExpr.reference span (.identifier m) arguments).bind c = .ok t
  /-- Something in the type is printed as `t` if there is such a reference inside. -/
  inside : (∃ a ∈ t.applications, PrintedAsSelf a.1) ↔ Part.RefersTo own below c (.type e)
  /-- It has an argument for each type parameter. -/
  arity : ∀ a ∈ t.applications, PrintedAsSelf a.1 → a = (selfType, n)

theorem refersExactly (hfile : Compiles source file items) (hs : file.sites[k]? = some s)
    (hc : s.view.scope.InBody inner x n c) {e : TypeExpr} {t : Ty} (h : e.bind c = .ok t) :
    RefersExactly (.interface x n) inner.entries n c e t where
  bound := h
  reference := by
    rintro span name arguments rfl
    exact printedAsSelf_reference_iff hfile hs hc h
  head := by
    constructor
    · rintro ⟨path, ts, rfl, hself⟩
      exact exists_yields hfile hs hc hself e h
    · rintro ⟨span, m, arguments, -, hfinds, hbind⟩
      exact (printedAsSelf_reference_iff hfile hs hc hbind).2 ⟨m, rfl, hfinds⟩
  inside := by
    constructor
    · rintro ⟨a, ha, hself⟩
      exact (refersTo_of_printedAsSelf hfile hs (TypeExpr.binds c e t h) hc ha hself).2
    · exact printedAsSelf_of_refersTo hfile hs h hc
  arity := fun _ ha hself =>
    (refersTo_of_printedAsSelf hfile hs (TypeExpr.binds c e t h) hc ha hself).1

end

/-! ## Files -/

/-- The scope in the body of an interface. -/
def Interface.bodyScope (x : Interface) (inner : Scope) (vs : List String) : Scope :=
  (inner.push (.interface x.name vs.length)).inInterface x.name

/-- The item of a declaration is recursive where the declaration is. -/
def Site.RecursesAs (s : Site) (item : Item) : Prop :=
  match s.declared with
  | .ofTypeAlias x => ∃ d, item = .typeDeclaration d ∧ d.name = x.name ∧
    (d.isNonrec ↔ ∃ a ∈ d.body.applications, PrintedAlone (lowerChars d.name.toList) a.1)
  | .ofInterface x => ∃ inner vs fields,
    s.view.scope.declareTypeParameters (x.typeParameters.getD []) = .ok (inner, vs) ∧
    item = .submodule x.name (interfaceItems vs fields) ∧
    (TypeExpr.object x.span x.members).bind (x.bodyScope inner vs) = .ok (.object fields) ∧
    ∀ c e, Part.Within (x.bodyScope inner vs) (.type (.object x.span x.members)) c (.type e) →
      ∃ t, RefersExactly (.interface x.name vs.length) inner.entries vs.length c e t
  | _ => True

theorem Interface.exists_fields {scope : Scope} {x : Interface} {item : Item} {entry : Entry}
    (h : x.compile scope = .ok (item, entry)) :
    ∃ inner vs fields, scope.declareTypeParameters (x.typeParameters.getD []) = .ok (inner, vs) ∧
      item = .submodule x.name (interfaceItems vs fields) ∧
      bindMembers (x.bodyScope inner vs) [] x.members = .ok fields := by
  unfold Interface.compile at h
  split at h
  · split at h
    · cases h
    · obtain ⟨⟨inner, vs⟩, hdecl, h⟩ := Compiled.bind_eq_ok.1 h
      obtain ⟨fields, hfields, h⟩ := Compiled.bind_eq_ok.1 h
      cases h
      exact ⟨inner, vs, fields, hdecl, rfl, hfields⟩
  · cases h

theorem Part.BoundTo.within {c c' : Scope} {part part' : Part} {t : Ty} (h : part.BoundTo c t)
    (hwithin : part.Within c c' part') : ∃ t', part'.BoundTo c' t' := by
  induction hwithin generalizing t with
  | refl => exact ⟨t, h⟩
  | child hchild _ ih =>
    obtain ⟨t', hbound, -⟩ := h.child hchild
    exact ih hbound

/-- In the bindings of a file an alias is marked as not recursive if and only if a constructor in
its body is printed like the alias; and in the body of an interface a type is bound to `t`, with an
argument for each type parameter, if and only if it is a reference to that interface itself. -/
theorem recursesAs_of_bindingsOf {source : String} {items : List Item}
    (h : bindingsOf source = .ok items) :
    ∃ file, parse source = .ok file ∧ file.sites.length = items.length ∧
      ∀ (k : Nat) (s : Site) (item : Item), file.sites[k]? = some s → items[k]? = some item →
        s.RecursesAs item := by
  obtain ⟨file, hfile⟩ := exists_compiles h
  refine ⟨file, hfile.parsed, hfile.sites.length_eq, fun k s item hs hitem => ?_⟩
  obtain ⟨item', hitem', hcompile⟩ := exists_right_of_forall₂ hfile.sites hs
  obtain rfl : item = item' := Option.some.inj (hitem.symm.trans hitem')
  unfold Site.RecursesAs
  unfold Site.compile at hcompile
  split
  · rename_i x hx
    rw [hx] at hcompile
    cases Declared.compile_eq_ok hcompile with
    | ofTypeAlias _ _ _ => exact ⟨_, rfl, rfl, anyName_namesAlias_iff⟩
  · rename_i x hx
    rw [hx] at hcompile
    obtain ⟨⟨_, entry⟩, hinterface, rfl⟩ := Compiled.map_eq_ok.1 hcompile
    obtain ⟨inner, vs, fields, hdecl, rfl, hfields⟩ := Interface.exists_fields hinterface
    have hbody : Part.BoundTo (x.bodyScope inner vs) (.type (.object x.span x.members))
        (.object fields) := by
      rw [Part.BoundTo, TypeExpr.bind, hfields]
      rfl
    have hhere := Scope.Inside.here (File.fits_of_mem_sites hs).outside
    have hin := Scope.InBody.enters (x := x.name) (n := vs.length) (hhere.declares hdecl)
    refine ⟨inner, vs, fields, hdecl, rfl, hbody, fun c e hwithin => ?_⟩
    obtain ⟨t, ht⟩ := hbody.within hwithin
    exact ⟨t, refersExactly hfile hs (hin.within hwithin) ht⟩
  · trivial

/-- An alias that is declared again in terms of itself, and an interface with a type parameter that
refers to itself and to the alias. -/
theorem recursesAs_of_bindingsOf_redeclared : ∃ items,
    bindingsOf ("declare type a = number; declare type a = a[]; "
        ++ "declare interface B<b> \x7b x: (B<b>)[]; y: a; \x7d") = .ok items ∧
    items = [.typeDeclaration ⟨false, "a", [], .named "float"⟩,
      .typeDeclaration ⟨true, "a", [], .constructor "array" [.named "a"]⟩,
      .submodule "B" (interfaceItems ["b"]
        [⟨"x", .constructor "array" [.constructor "t" [.variable "b"]]⟩, ⟨"y", .named "a"⟩])] ∧
    ∃ file, parse ("declare type a = number; declare type a = a[]; "
        ++ "declare interface B<b> \x7b x: (B<b>)[]; y: a; \x7d") = .ok file ∧
      file.sites.length = items.length ∧
      ∀ (k : Nat) (s : Site) (item : Item), file.sites[k]? = some s → items[k]? = some item →
        s.RecursesAs item := by
  have hok : bindingsOf ("declare type a = number; declare type a = a[]; "
        ++ "declare interface B<b> \x7b x: (B<b>)[]; y: a; \x7d")
      = .ok [.typeDeclaration ⟨false, "a", [], .named "float"⟩,
        .typeDeclaration ⟨true, "a", [], .constructor "array" [.named "a"]⟩,
        .submodule "B" (interfaceItems ["b"]
          [⟨"x", .constructor "array" [.constructor "t" [.variable "b"]]⟩,
            ⟨"y", .named "a"⟩])] := by
    decide +kernel
  exact ⟨_, hok, rfl, recursesAs_of_bindingsOf hok⟩

end Ambient
