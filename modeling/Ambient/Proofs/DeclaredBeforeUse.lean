import Ambient.Proofs.Scopes
import Ambient.Proofs.Words
/-!
# Types are declared before they are used

Every type constructor in the bindings of a file is a primitive of the target, or an earlier item
declares it, or it is the type `t` of the interface module that it stands in; and it is applied to
as many arguments as it has parameters.
-/

namespace Ambient

/-! ## Applications -/

namespace Ty

mutual

/-- The type constructors in a type, each with the number of its arguments. -/
def applications : Ty → List (String × Nat)
  | .constructor name arguments => (name, arguments.length) :: applicationsIn arguments
  | .variable _ => []
  | .arrow _ parameters result => applicationsIn parameters ++ result.applications
  | .tuple elements => applicationsIn elements
  | .object fields => applicationsOf fields

def applicationsIn : List Ty → List (String × Nat)
  | [] => []
  | t :: ts => t.applications ++ applicationsIn ts

def applicationsOf : List Field → List (String × Nat)
  | [] => []
  | ⟨_, t⟩ :: fs => t.applications ++ applicationsOf fs

end

theorem mem_applicationsIn {ts : List Ty} {a : String × Nat} :
    a ∈ applicationsIn ts ↔ ∃ t ∈ ts, a ∈ t.applications := by
  induction ts with
  | nil => simp [applicationsIn]
  | cons t ts ih => simp [applicationsIn, ih]

theorem mem_applicationsOf {fs : List Field} {a : String × Nat} :
    a ∈ applicationsOf fs ↔ ∃ f ∈ fs, a ∈ f.type.applications := by
  induction fs with
  | nil => simp [applicationsOf]
  | cons f fs ih =>
    obtain ⟨name, t⟩ := f
    simp [applicationsOf, ih]

end Ty

mutual

/-- The type constructors in an item, each with the number of its arguments. -/
def Item.applications : Item → List (String × Nat)
  | .external e => e.type.applications
  | .typeDeclaration d => d.body.applications
  | .submodule _ items => Item.applicationsIn items

def Item.applicationsIn : List Item → List (String × Nat)
  | [] => []
  | i :: is => i.applications ++ Item.applicationsIn is

end

theorem Item.mem_applicationsIn {is : List Item} {a : String × Nat} :
    a ∈ Item.applicationsIn is ↔ ∃ i ∈ is, a ∈ i.applications := by
  induction is with
  | nil => simp [Item.applicationsIn]
  | cons i is ih => simp [Item.applicationsIn, ih]

/-! ## Known types -/

/-- The type constructors that the target provides, with the numbers of their parameters. -/
def primitives : List (String × Nat) :=
  [("string", 0), ("float", 0), ("bool", 0), ("unit", 0), ("array", 1), ("Js.null", 1),
   ("Js.undefined", 1), ("Js.Nullable.t", 1), ("Js.Promise.t", 1), ("Js.Json.t", 0),
   ("Js.Types.symbol", 0), ("Js.Types.bigint", 0), ("Js.Date.t", 0), ("Js.Re.t", 0)]

/-- What item `k` may use: a name and the number of arguments that it takes. -/
inductive Known (items : List Item) (k : Nat) : String × Nat → Prop
  | primitive {a} : a ∈ primitives → Known items k a
  | typeDeclaration {j d} :
    j < k → items[j]? = some (.typeDeclaration d) → Known items k (d.name, d.parameters.length)
  | submodule {j name body vs} :
    j < k → items[j]? = some (.submodule name body) → selfParameters body = some vs →
    Known items k (pathToSelf name, vs.length)
  | self {name body vs} :
    items[k]? = some (.submodule name body) → selfParameters body = some vs →
    Known items k (selfType, vs.length)

/-- The item of a declaration that brings a name into scope. -/
theorem Declared.Binds.of_entry {scope : Scope} {d : Declared} {item : Item} {e : Entry}
    (h : d.Binds Scope.discipline scope item) (he : d.entry = some e) :
    (∃ x, item = .typeDeclaration x ∧ e = .typeAlias x.name x.parameters.length) ∨
      ∃ name vs fields, item = .submodule name (interfaceItems vs fields) ∧
        e = .interface name vs.length := by
  cases h with
  | ofVariable => cases he
  | ofFunction => cases he
  | ofTypeAlias _ hdecl _ =>
    cases he
    exact .inl ⟨_, rfl, by rw [Scope.length_of_declareTypeParameters hdecl]⟩
  | ofInterface _ hdecl _ =>
    cases he
    exact .inr ⟨_, _, _, rfl, by rw [Scope.length_of_declareTypeParameters hdecl]⟩

/-! ## Names of types -/

theorem toList_pathToSelf (name : String) : (pathToSelf name).toList = name.toList ++ ['.', 't'] := by
  simp [pathToSelf, selfType]

theorem ne_pathToSelf {name other : String} (h : '.' ∉ name.toList) : name ≠ pathToSelf other := by
  rintro rfl
  rw [toList_pathToSelf] at h
  exact h (by simp)

theorem pathToSelf_injective {name other : String} (h : pathToSelf name = pathToSelf other) :
    name = other := by
  have hchars := congrArg String.toList h
  rw [toList_pathToSelf, toList_pathToSelf, List.append_cancel_right_eq] at hchars
  exact String.toList_inj.1 hchars

/-- No primitive is the type of an interface. -/
theorem primitive_ne_pathToSelf {a : String × Nat} (ha : a ∈ primitives) {name : String}
    (h : '.' ∉ name.toList) : a.1 ≠ pathToSelf name := by
  have hpieces : ∀ a ∈ primitives, ∀ x ∈ (pieces '.' a.1.toList).head?,
      pieces '.' a.1.toList ≠ [x, ['t']] := by decide
  intro heq
  have hself : pieces '.' a.1.toList = [name.toList, ['t']] := by
    rw [heq, toList_pathToSelf, Name.pieces_append h]
    rfl
  exact hpieces a ha name.toList (by rw [hself]; rfl) hself

/-! ## Uses -/

/-- A use of a type constructor in item `k`, inside the body of `own`. -/
structure Uses (items : List Item) (k : Nat) (own : Scope.Own) (a : String × Nat) : Prop where
  known : Known items k a
  foreign : ∀ x ∈ own, a.1 ≠ pathToSelf x.1

/-- An entry whose declaration comes before item `k`. -/
def Entry.IsKnown (items : List Item) (k : Nat) : Entry → Prop
  | .builtIn _ => True
  | .typeAlias name arity => Known items k (name, arity) ∧ '.' ∉ name.toList
  | .interface name arity => Known items k (pathToSelf name, arity)
  | .typeVariable .. => False

section

variable {items : List Item} {k : Nat} {base : Scope} {own : Scope.Own}

theorem dot_not_mem_selfType : '.' ∉ selfType.toList := by decide

theorem uses_primitive (hown : ∀ x ∈ own, '.' ∉ x.1.toList) {a : String × Nat}
    (ha : a ∈ primitives) : Uses items k own a :=
  ⟨.primitive ha, fun x hx => primitive_ne_pathToSelf ha (hown x hx)⟩

/-- The applications in a constructor applied to arguments. -/
theorem uses_constructor {name : String} {ts : List Ty} (h : Uses items k own (name, ts.length))
    (hts : ∀ u ∈ ts, ∀ a ∈ u.applications, Uses items k own a) :
    ∀ a ∈ (Ty.constructor name ts).applications, Uses items k own a := by
  intro a ha
  rw [Ty.applications] at ha
  rcases List.mem_cons.1 ha with rfl | ha
  · exact h
  · obtain ⟨u, hu, ha⟩ := Ty.mem_applicationsIn.1 ha
    exact hts u hu a ha

theorem uses_builtIn (hown : ∀ x ∈ own, '.' ∉ x.1.toList) (b : BuiltIn) {ts : List Ty}
    (hlen : ts.length = b.arity) (hts : ∀ u ∈ ts, ∀ a ∈ u.applications, Uses items k own a) :
    ∀ a ∈ (b.target ts).applications, Uses items k own a := by
  have hprimitive : ∀ name us, (name, List.length us) ∈ primitives →
      (∀ u ∈ us, ∀ a ∈ u.applications, Uses items k own a) →
      ∀ a ∈ (Ty.constructor name us).applications, Uses items k own a :=
    fun name us hname hus => uses_constructor (uses_primitive hown hname) hus
  have hunit : ∀ a ∈ Ty.unit.applications, Uses items k own a :=
    hprimitive _ _ (by decide) (by simp)
  cases b with
  | void | undefined => exact hunit
  | null => exact hprimitive _ _ (by decide) (by simpa using hunit)
  | object => exact nofun
  | array | readonlyArray | promise => exact hprimitive _ _ (by rw [hlen]; decide) hts
  | _ => exact hprimitive _ _ (by decide) (by simp)

/-- A reference inside a declaration uses known types. -/
theorem uses_target (hbase : ∀ name e, base.lookup name = some e → e.IsKnown items k)
    (hown : ∀ x ∈ own, Known items k (selfType, x.2) ∧ '.' ∉ x.1.toList) {c : Scope}
    (hc : base.Inside own c) {name : String} {ts : List Ty} {t : Ty}
    (href : Scope.discipline.refers c name ts t)
    (hts : ∀ u ∈ ts, ∀ a ∈ u.applications, Uses items k own a) :
    ∀ a ∈ t.applications, Uses items k own a := by
  obtain ⟨entry, hlookup, hlen, -, rfl⟩ := href
  have hname := Scope.name_of_lookup hlookup
  rcases hc.lookup_cases hlookup with ⟨printed, rfl⟩ | ⟨arity, hself, rfl⟩ | ⟨hlookup, hforeign⟩
  · exact nofun
  · -- The interface around is written as its own type.
    have hin : c.interfaceName = some name := by rw [hc.interfaceName, hself]; rfl
    obtain ⟨hknown, -⟩ := hown _ hself
    rw [Scope.target_self hin]
    refine uses_constructor ⟨?_, fun x _ => ne_pathToSelf dot_not_mem_selfType⟩ hts
    rw [hlen]
    exact hknown
  · have hknown := hbase name entry hlookup
    cases entry with
    | builtIn b => exact uses_builtIn (fun x hx => (hown x hx).2) b hlen hts
    | typeAlias n arity =>
      obtain ⟨hknown, hdot⟩ := hknown
      refine uses_constructor ⟨?_, fun x _ => ne_pathToSelf hdot⟩ hts
      rw [hlen]
      exact hknown
    | interface n arity =>
      obtain rfl : n = name := hname
      rw [Scope.target_interface (hc.interfaceName_ne hforeign)]
      refine uses_constructor ⟨?_, fun x hx heq => ?_⟩ hts
      · rw [hlen]
        exact hknown
      · exact hforeign x hx (pathToSelf_injective heq).symm
    | typeVariable n printed => exact hknown.elim

theorem keeps_uses (own : Scope.Own)
    (hbase : ∀ name e, base.lookup name = some e → e.IsKnown items k)
    (hown : ∀ x ∈ own, Known items k (selfType, x.2) ∧ '.' ∉ x.1.toList) :
    Scope.discipline.Keeps fun c t =>
      base.Inside own c → ∀ a ∈ t.applications, Uses items k own a := by
  have hprimitive : ∀ {a}, a ∈ primitives → Uses items k own a :=
    uses_primitive fun x hx => (hown x hx).2
  have hunary : ∀ {t : Ty} name, (name, 1) ∈ primitives →
      (∀ a ∈ t.applications, Uses items k own a) →
      ∀ a ∈ (Ty.constructor name [t]).applications, Uses items k own a :=
    fun name hname ht => uses_constructor (hprimitive hname) (by simpa using ht)
  constructor
  case refers =>
    intro c name ts t href hts hc
    exact uses_target hbase hown hc href fun u hu => hts u hu hc
  case literal =>
    intro c l hc
    cases l with
    | _ => exact uses_constructor (hprimitive (by decide)) (by simp)
  case array => exact fun ht hc => hunary _ (by decide) (ht hc)
  case nullish => exact fun ht hc => hunary _ (by decide) (ht hc)
  case undefined => exact fun ht hc => hunary _ (by decide) (ht hc)
  case unit => exact fun hc => uses_constructor (hprimitive (by decide)) (by simp)
  case tuple =>
    intro c ts _ hts hc a ha
    obtain ⟨t, ht, ha⟩ := Ty.mem_applicationsIn.1 ha
    exact hts t ht hc a ha
  case object =>
    intro c fs hfs hc a ha
    obtain ⟨f, hf, ha⟩ := Ty.mem_applicationsOf.1 ha
    exact hfs f hf hc a ha
  case arrow =>
    intro c ps inner vs ts r hdecl _ hts hr hc a ha
    have hinner := hc.declares hdecl
    rw [Ty.applications] at ha
    rcases List.mem_append.1 ha with ha | ha
    · obtain ⟨t, ht, ha⟩ := Ty.mem_applicationsIn.1 ha
      exact hts t ht hinner a ha
    · exact hr hinner a ha

end

/-! ## Files -/

section

variable {source : String} {file : File} {items : List Item}

/-- What a name means where a declaration stands is declared before. -/
theorem isKnown_of_lookup (hfile : Compiles source file items) {k : Nat} {s : Site}
    (hs : file.sites[k]? = some s) {name : String} {e : Entry}
    (hl : s.view.scope.lookup name = some e) : e.IsKnown items k := by
  have hfits := File.fits_of_mem_sites hs
  rcases hfits.lookup_cases hl with ⟨j, s', horigin, hj, he⟩ | ⟨-, b, rfl⟩
  · have hjk : j < k := hfits.below j (List.mem_of_find?_eq_some horigin)
    have hword := isWord_of_parse hfile.parsed (List.mem_of_getElem? hj) he
    obtain ⟨item, hitem, hbinds⟩ := hfile.exists_item hj
    rcases hbinds.of_entry he with
      ⟨x, rfl, rfl⟩ | ⟨name, vs, fields, rfl, rfl⟩
    · exact ⟨.typeDeclaration hjk hitem, hword.not_mem_dot⟩
    · exact .submodule hjk hitem (selfParameters_interfaceItems vs fields)
  · exact trivial

theorem applications_interfaceItems {vs : List String} {fields : List Field} {a : String × Nat}
    (ha : a ∈ Item.applicationsIn (interfaceItems vs fields)) :
    a = (selfType, vs.length) ∨ a ∈ (Ty.object fields).applications := by
  obtain ⟨i, hi, ha⟩ := Item.mem_applicationsIn.1 ha
  unfold interfaceItems at hi
  rcases List.mem_cons.1 hi with rfl | hi
  · exact .inr ha
  · obtain ⟨f, hf, rfl⟩ := List.mem_map.1 hi
    have hvs : ∀ vs : List String, Ty.applicationsIn (vs.map .variable) = [] := by
      intro vs
      induction vs with
      | nil => rfl
      | cons v vs ih => exact ih
    simp only [Field.getter, Item.applications, Ty.applications, Ty.applicationsIn, hvs,
      List.append_nil, List.cons_append, List.nil_append, List.length_map, List.mem_cons] at ha
    rcases ha with rfl | ha
    · exact .inl rfl
    · exact .inr (Ty.mem_applicationsOf.2 ⟨f, hf, ha⟩)

/-- Every use of a type constructor in the bindings of a file is known where it stands, with that
number of arguments, and no interface module uses its own type by its path. -/
theorem declared_before_use (h : bindingsOf source = .ok items) {k : Nat} {item : Item}
    (hk : items[k]? = some item) :
    (∀ a ∈ item.applications, Known items k a) ∧
      ∀ name body n, item = .submodule name body → (pathToSelf name, n) ∉ item.applications := by
  obtain ⟨file, hfile⟩ := exists_compiles h
  obtain ⟨s, hs, hbinds⟩ := hfile.exists_site hk
  have hhere := Scope.Inside.here (File.fits_of_mem_sites hs).outside
  have hbase : ∀ name e, s.view.scope.lookup name = some e → e.IsKnown items k :=
    fun name e => isKnown_of_lookup hfile hs
  have houtside := keeps_uses none hbase nofun
  generalize hdeclared : s.declared = declared at hbinds
  cases hbinds with
  | ofVariable _ _ htype => exact ⟨fun a ha => (htype.keeps houtside hhere a ha).known, nofun⟩
  | ofFunction _ _ htype => exact ⟨fun a ha => (htype.keeps houtside hhere a ha).known, nofun⟩
  | ofTypeAlias _ hdecl htype =>
    exact ⟨fun a ha => (htype.keeps houtside (hhere.declares hdecl) a ha).known, nofun⟩
  | @ofInterface x inner vs fields _ hdecl htype =>
    have hself : Known items k (selfType, vs.length) :=
      .self hk (selfParameters_interfaceItems vs fields)
    have hentry : s.declared.entry = some (.interface x.name (x.typeParameters.getD []).length) := by
      rw [hdeclared]
      rfl
    have hword := isWord_of_parse hfile.parsed (List.mem_of_getElem? hs) hentry
    have hinside := keeps_uses (some (x.name, vs.length)) hbase
      (by rintro _ ⟨⟩; exact ⟨hself, hword.not_mem_dot⟩)
    have huses := htype.keeps hinside (.interface (hhere.declares hdecl))
    refine ⟨fun a ha => ?_, ?_⟩
    · rcases applications_interfaceItems ha with rfl | ha
      · exact hself
      · exact (huses a ha).known
    · rintro _ _ n ⟨⟩ ha
      rcases applications_interfaceItems ha with heq | ha
      · exact ne_pathToSelf dot_not_mem_selfType (congrArg Prod.fst heq).symm
      · exact (huses _ ha).foreign _ rfl rfl

/-- An interface with a type parameter that refers to itself, and an alias that uses it. -/
theorem declared_before_use_array : ∃ items item,
    bindingsOf "declare interface A<a> \x7b x: A<a>; \x7d declare type b = A<string>[];" = .ok items ∧
    items[1]? = some item ∧ ("A.t", 1) ∈ item.applications ∧ Known items 1 ("A.t", 1) := by
  have hok : bindingsOf "declare interface A<a> \x7b x: A<a>; \x7d declare type b = A<string>[];"
      = .ok [.submodule "A" (interfaceItems ["a"] [⟨"x", .constructor "t" [.variable "a"]⟩]),
        .typeDeclaration
          ⟨false, "b", [], .constructor "array" [.constructor "A.t" [.named "string"]]⟩] := by
    decide +kernel
  have huse : ("A.t", 1) ∈ (Item.typeDeclaration
      ⟨false, "b", [], .constructor "array" [.constructor "A.t" [.named "string"]]⟩).applications :=
    by decide
  exact ⟨_, _, hok, rfl, huse, (declared_before_use hok rfl).1 _ huse⟩

end

end Ambient
