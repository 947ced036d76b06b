import Ambient.Proofs.Scopes
import Ambient.Proofs.TypeParameters
/-!
# Type variables are hygienic

A type variable in the bindings of a file stands below binders: the parameters of the type
declaration or of the interface that it is part of, then the type parameters of the function types
around it. No two of these are written alike, one is written like the type variable, and it is the
one that was made for the innermost type parameter of the name that the declaration uses.

`hygiene` says the last part, with the binders for contexts: the compiler's scopes show them
(`Scope.Shows`), however type parameters shadow each other, and whatever they are renamed to.
-/

namespace Ambient

/-! ## Type variables and the binders around them -/

namespace Ty

mutual

/-- The type variables in a type that stands below the binders `bs`, each with the binders around
it, outermost first. -/
def occurrences (bs : List String) : Ty → List (List String × String)
  | .constructor _ arguments => occurrencesIn bs arguments
  | .variable name => [(bs, name)]
  | .arrow quantified parameters result =>
    occurrencesIn (bs ++ quantified) parameters ++ result.occurrences (bs ++ quantified)
  | .tuple elements => occurrencesIn bs elements
  | .object fields => occurrencesOf bs fields

def occurrencesIn (bs : List String) : List Ty → List (List String × String)
  | [] => []
  | t :: ts => t.occurrences bs ++ occurrencesIn bs ts

def occurrencesOf (bs : List String) : List Field → List (List String × String)
  | [] => []
  | ⟨_, t⟩ :: fs => t.occurrences bs ++ occurrencesOf bs fs

end

theorem mem_occurrencesIn {bs : List String} {ts : List Ty} {x : List String × String} :
    x ∈ occurrencesIn bs ts ↔ ∃ t ∈ ts, x ∈ t.occurrences bs := by
  induction ts with
  | nil => simp [occurrencesIn]
  | cons t ts ih => simp [occurrencesIn, ih]

theorem mem_occurrencesOf {bs : List String} {fs : List Field} {x : List String × String} :
    x ∈ occurrencesOf bs fs ↔ ∃ f ∈ fs, x ∈ f.type.occurrences bs := by
  induction fs with
  | nil => simp [occurrencesOf]
  | cons f fs ih =>
    obtain ⟨name, t⟩ := f
    simp [occurrencesOf, ih]

end Ty

mutual

/-- The type variables in an item, each with the binders around it. In the module of an interface
the parameters of its own type, `bs`, are around everything. -/
def Item.occurrences (bs : List String) : Item → List (List String × String)
  | .external e => e.type.occurrences bs
  | .typeDeclaration d => d.body.occurrences d.parameters
  | .submodule _ items => Item.occurrencesIn ((selfParameters items).getD []) items

def Item.occurrencesIn (bs : List String) : List Item → List (List String × String)
  | [] => []
  | i :: is => i.occurrences bs ++ Item.occurrencesIn bs is

end

theorem Item.mem_occurrencesIn {bs : List String} {is : List Item} {x : List String × String} :
    x ∈ Item.occurrencesIn bs is ↔ ∃ i ∈ is, x ∈ i.occurrences bs := by
  induction is with
  | nil => simp [Item.occurrencesIn]
  | cons i is ih => simp [Item.occurrencesIn, ih]

/-- The binders are written differently from each other, and exactly one like the type variable. -/
def Bound (x : List String × String) : Prop :=
  (x.1.map lowerIdent).Nodup ∧ (x.1.map lowerIdent).count (lowerIdent x.2) = 1

theorem bound_of_mem {bs : List String} {v : String} (h : (bs.map lowerIdent).Nodup)
    (hv : v ∈ bs) : Bound (bs, v) :=
  ⟨h, List.count_eq_one_of_mem h (List.mem_map_of_mem hv)⟩

/-! ## The innermost binder -/

/-- A type parameter by its name and the type variable that it is written as. -/
structure Binder where
  name : String
  printed : String

/-- The binder that a name means, of binders from the outermost on. -/
def innermost (bs : List Binder) (name : String) : Option Binder :=
  bs.reverse.find? (·.name == name)

theorem innermost_concat (bs : List Binder) (b : Binder) (name : String) :
    innermost (bs ++ [b]) name = if b.name = name then some b else innermost bs name := by
  unfold innermost
  by_cases h : b.name = name
  · simp [h]
  · simp [h]

theorem mem_of_innermost {bs : List Binder} {name : String} {b : Binder}
    (h : innermost bs name = some b) : b ∈ bs ∧ b.name = name := by
  unfold innermost at h
  exact ⟨List.mem_reverse.1 (List.mem_of_find?_eq_some h), by simpa using List.find?_some h⟩

/-- A reference means the innermost type parameter of its name. A name of another type is written
without type variables of its own. -/
def hygiene : Discipline (List Binder) where
  refers bs name ts t :=
    match innermost bs name with
    | some b => ts = [] ∧ t = .variable b.printed
    | none => ∀ around, ∀ x ∈ t.occurrences around, ∃ u ∈ ts, x ∈ u.occurrences around
  declares bs ps inner vs :=
    vs.length = ps.length ∧ inner = bs ++ (ps.zip vs).map (fun x => ⟨x.1.name, x.2⟩) ∧
      (inner.map (lowerIdent ·.printed)).Nodup
  enters bs _ _ := bs
  drops bs e := ∃ span name, e = .reference span (.identifier name) none ∧ innermost bs name = none

theorem printed_of_declares {bs inner : List Binder} {ps : List TypeParameter} {vs : List String}
    (h : hygiene.declares bs ps inner vs) :
    inner.map (·.printed) = bs.map (·.printed) ++ vs ∧
      ((inner.map (·.printed)).map lowerIdent).Nodup := by
  obtain ⟨hlen, rfl, hnodup⟩ := h
  refine ⟨?_, by rw [List.map_map]; exact hnodup⟩
  rw [List.map_append, List.map_map]
  exact congrArg _ (List.map_snd_zip (Nat.le_of_eq hlen))

/-! ## Scopes show the binders around -/

/-- The binder that an entry stands for. -/
def Entry.binder? : Entry → Option Binder
  | .typeVariable name printed => some ⟨name, printed⟩
  | _ => none

/-- The type parameters in scope are the binders, each under its name unless one inside hides it. -/
structure Scope.Shows (c : Scope) (bs : List Binder) : Prop where
  lookup : ∀ name, (c.lookup name).bind Entry.binder? = innermost bs name
  written : c.typeVariables = (bs.map (·.printed)).reverse
  distinct : (bs.map (lowerIdent ·.printed)).Nodup
  lower : ∀ b ∈ bs, Letter.startsLower b.name

namespace Scope.Shows

variable {c : Scope} {bs : List Binder}

/-- One more type parameter. Its type variable is written like none of those around. -/
theorem push (h : c.Shows bs) {name : String} (hlower : Letter.startsLower name) :
    (c.push (.typeVariable name (c.freshVariable name))).Shows
      (bs ++ [⟨name, c.freshVariable name⟩]) where
  lookup other := by
    rw [lookup_push, innermost_concat, ← h.lookup]
    by_cases heq : name = other
    · simp [Entry.name, Entry.binder?, heq]
    · simp [Entry.name, heq]
  written := by
    rw [List.map_append, List.reverse_append, ← h.written]
    rfl
  distinct := by
    rw [List.map_append, List.nodup_append]
    refine ⟨h.distinct, by simp, ?_⟩
    intro x hx y hy heq
    -- What the binders around are written as is taken.
    have htaken : lowerIdent (c.freshVariable name) ∈ c.takenIdents := by
      unfold takenIdents
      rw [h.written, List.map_reverse, List.mem_reverse, List.map_map]
      rw [List.map_singleton, List.mem_singleton] at hy
      rw [← hy, ← heq]
      exact hx
    exact freshVariable_not_taken c name htaken
  lower b hb := by
    rcases List.mem_append.1 hb with hb | hb
    · exact h.lower b hb
    · rw [List.mem_singleton.1 hb]
      exact hlower

theorem declares (h : c.Shows bs) {ps : List TypeParameter} {inner : Scope} {vs : List String}
    (hdecl : c.declareTypeParameters ps = .ok (inner, vs)) :
    ∃ bs', hygiene.declares bs ps bs' vs ∧ inner.Shows bs' := by
  induction ps generalizing c bs vs with
  | nil =>
    unfold declareTypeParameters at hdecl
    cases hdecl
    exact ⟨bs, ⟨rfl, by simp, h.distinct⟩, h⟩
  | cons p ps ih =>
    unfold declareTypeParameters at hdecl
    split at hdecl
    · rename_i hlower
      obtain ⟨⟨scope, others⟩, hothers, hdecl⟩ := Compiled.bind_eq_ok.1 hdecl
      cases hdecl
      obtain ⟨bs', ⟨hlen, rfl, hnodup⟩, hinner⟩ := ih (h.push hlower) hothers
      rw [List.append_assoc] at hnodup hinner
      exact ⟨_, ⟨congrArg (· + 1) hlen, rfl, hnodup⟩, hinner⟩
    · cases hdecl

/-- An interface hides no type parameter, since their names differ in case. -/
theorem enters (h : c.Shows bs) {name : String} (hupper : Letter.startsUpper name) (arity : Nat) :
    (discipline.enters c name arity).Shows bs where
  lookup other := by
    change ((c.push (.interface name arity)).lookup other).bind _ = _
    rw [lookup_push]
    split
    · rename_i heq
      cases hb : innermost bs other with
      | none => rfl
      | some b =>
        obtain ⟨hmem, hname⟩ := mem_of_innermost hb
        have hne := Letter.ne_of_startsLower_of_startsUpper (h.lower b hmem) hupper
        exact absurd (hname.trans heq.symm) hne
    · exact h.lookup other
  written := h.written
  distinct := h.distinct
  lower := h.lower

theorem refers (h : c.Shows bs) {name : String} {ts : List Ty} {t : Ty}
    (href : discipline.refers c name ts t) : hygiene.refers bs name ts t := by
  obtain ⟨entry, hlookup, hlen, -, rfl⟩ := href
  have hbinder := h.lookup name
  rw [hlookup] at hbinder
  change match innermost bs name with | some b => _ | none => _
  rw [← hbinder]
  -- A constructor has the type variables of its arguments.
  have hconstructor : ∀ path around, ∀ x ∈ (Ty.constructor path ts).occurrences around,
      ∃ u ∈ ts, x ∈ u.occurrences around := by
    intro path around x hx
    rw [Ty.occurrences] at hx
    exact Ty.mem_occurrencesIn.1 hx
  cases entry with
  | typeVariable n printed => exact ⟨List.eq_nil_of_length_eq_zero hlen, rfl⟩
  | typeAlias n arity => exact hconstructor n
  | interface n arity =>
    change ∀ around, ∀ x ∈ (if c.interfaceName = some n then _ else _ : Ty).occurrences around, _
    split
    · exact hconstructor _
    · exact hconstructor _
  | builtIn b =>
    cases b with
    | array | readonlyArray | promise => exact hconstructor _
    | _ => exact fun around x hx => nomatch hx

theorem drops (h : c.Shows bs) {e : TypeExpr} (hdrop : discipline.drops c e) :
    hygiene.drops bs e := by
  change c.isNullish e at hdrop
  unfold isNullish at hdrop
  split at hdrop
  · rename_i span name
    refine ⟨span, name, rfl, ?_⟩
    rw [← h.lookup]
    split at hdrop
    · rename_i hlookup
      rw [hlookup]
      rfl
    · rename_i hlookup
      rw [hlookup]
      rfl
    · cases hdrop
  · cases hdrop

end Scope.Shows

theorem Declared.binder?_of_entry {d : Declared} {e : Entry} (h : d.entry = some e) :
    e.binder? = none := by
  cases d with
  | ofTypeAlias d => cases h; rfl
  | ofInterface d => cases h; rfl
  | _ => cases h

/-- No type parameter is in scope where a declaration stands. -/
theorem View.Fits.shows {all : List Site} {count : Nat} {v : View} (h : v.Fits all count) :
    v.scope.Shows [] := by
  have hbinder : ∀ e ∈ v.scope.entries, e.binder? = none := by
    obtain ⟨es, hes, hentries⟩ := h.entries
    intro e he
    rw [hentries] at he
    rcases List.mem_append.1 he with he | he
    · have hsome := List.mem_map_of_mem (f := some) he
      rw [← hes] at hsome
      obtain ⟨j, -, hj⟩ := List.mem_map.1 hsome
      obtain ⟨s, -, hs⟩ := Option.bind_eq_some_iff.1 hj
      exact Declared.binder?_of_entry hs
    · obtain ⟨b, rfl⟩ := Scope.builtIn_of_mem_prelude he
      rfl
  refine ⟨?_, ?_, .nil, nofun⟩
  · intro name
    cases hl : v.scope.lookup name with
    | none => rfl
    | some e => exact hbinder e (List.mem_of_find?_eq_some hl)
  · refine List.filterMap_eq_nil_iff.2 fun e he => ?_
    have hnone := hbinder e he
    cases e with
    | typeVariable => cases hnone
    | _ => rfl

/-! ## Occurrences are bound -/

theorem hygiene_keeps : hygiene.Keeps fun bs t =>
    ((bs.map (·.printed)).map lowerIdent).Nodup →
      ∀ x ∈ t.occurrences (bs.map (·.printed)), Bound x := by
  constructor
  case refers =>
    intro bs name ts t href hts hnodup x hx
    change match innermost bs name with | some b => _ | none => _ at href
    split at href
    · rename_i b hb
      obtain ⟨-, rfl⟩ := href
      rw [Ty.occurrences, List.mem_singleton] at hx
      rw [hx]
      exact bound_of_mem hnodup (List.mem_map_of_mem (mem_of_innermost hb).1)
    · obtain ⟨u, hu, hx⟩ := href _ x hx
      exact hts u hu hnodup x hx
  case literal =>
    intro bs l _ x hx
    cases l <;> cases hx
  case unit => exact fun _ x hx => nomatch hx
  case array | nullish | undefined =>
    intro bs t ht hnodup x hx
    obtain ⟨u, hu, hx⟩ := Ty.mem_occurrencesIn.1 hx
    rw [List.mem_singleton.1 hu] at hx
    exact ht hnodup x hx
  case tuple =>
    intro bs ts _ hts hnodup x hx
    obtain ⟨t, ht, hx⟩ := Ty.mem_occurrencesIn.1 hx
    exact hts t ht hnodup x hx
  case object =>
    intro bs fs hfs hnodup x hx
    obtain ⟨f, hf, hx⟩ := Ty.mem_occurrencesOf.1 hx
    exact hfs f hf hnodup x hx
  case arrow =>
    intro bs ps inner vs ts r hdecl _ hts hr _ x hx
    obtain ⟨hprinted, hnodup⟩ := printed_of_declares hdecl
    rw [Ty.occurrences, ← hprinted] at hx
    rcases List.mem_append.1 hx with hx | hx
    · obtain ⟨t, ht, hx⟩ := Ty.mem_occurrencesIn.1 hx
      exact hts t ht hnodup x hx
    · exact hr hnodup x hx

/-- The own type of an interface stands below its parameters, in its module as well. -/
theorem occurrences_interfaceItems {name : String} {vs : List String} {fields : List Field}
    {bs : List String} {x : List String × String}
    (hx : x ∈ (Item.submodule name (interfaceItems vs fields)).occurrences bs) :
    (∃ v ∈ vs, x = (vs, v)) ∨ x ∈ (Ty.object fields).occurrences vs := by
  rw [Item.occurrences, selfParameters_interfaceItems, Option.getD_some] at hx
  obtain ⟨i, hi, hx⟩ := Item.mem_occurrencesIn.1 hx
  unfold interfaceItems at hi
  rcases List.mem_cons.1 hi with rfl | hi
  · exact .inr hx
  · obtain ⟨f, hf, rfl⟩ := List.mem_map.1 hi
    rw [Field.getter, Item.occurrences, Ty.occurrences, List.append_nil] at hx
    rcases List.mem_append.1 hx with hx | hx
    · obtain ⟨t, ht, hx⟩ := Ty.mem_occurrencesIn.1 hx
      rw [List.mem_singleton.1 ht, Ty.occurrences] at hx
      obtain ⟨u, hu, hx⟩ := Ty.mem_occurrencesIn.1 hx
      obtain ⟨v, hv, rfl⟩ := List.mem_map.1 hu
      exact .inl ⟨v, hv, List.mem_singleton.1 hx⟩
    · exact .inr (Ty.mem_occurrencesOf.2 ⟨f, hf, hx⟩)

theorem Declared.Binds.bound {d : Declared} {item : Item} (h : d.Binds hygiene [] item) :
    ∀ x ∈ item.occurrences [], Bound x := by
  cases h with
  | ofVariable _ _ htype => exact htype.keeps hygiene_keeps .nil
  | ofFunction _ _ htype => exact htype.keeps hygiene_keeps .nil
  | ofTypeAlias _ hdecl htype =>
    obtain ⟨hprinted, hnodup⟩ := printed_of_declares hdecl
    have hbody := htype.keeps hygiene_keeps hnodup
    rw [hprinted] at hbody
    exact hbody
  | @ofInterface _ inner vs fields _ hdecl htype =>
    obtain ⟨hprinted, hnodup⟩ := printed_of_declares hdecl
    have hbody : ∀ x ∈ (Ty.object fields).occurrences (inner.map (·.printed)), Bound x :=
      htype.keeps hygiene_keeps hnodup
    rw [hprinted] at hnodup hbody
    intro x hx
    rcases occurrences_interfaceItems hx with ⟨v, hv, rfl⟩ | hx
    · exact bound_of_mem hnodup hv
    · exact hbody x hx

/-! ## Files -/

theorem Declared.Binds.hygienic {scope : Scope} {d : Declared} {item : Item}
    (h : d.Binds Scope.discipline scope item) (hscope : scope.Shows []) :
    d.Binds hygiene [] item := by
  -- Nothing need be known of the types here, so the property that is handed down is trivial.
  have himp : ∀ {c : Scope} {part t}, Ambient.Binds Scope.discipline c part t →
      ∀ {bs}, c.Shows bs → Ambient.Binds hygiene bs part t := by
    intro c part t hb bs hc
    refine hb.imp Scope.Shows (P := fun _ => True) ?_ ?_ ?_ ?_ hc trivial
    · constructor <;> simp
    · exact fun c bs name ts t hc _ href => hc.refers href
    · exact fun c bs ps inner vs hc hdecl => hc.declares hdecl
    · exact fun c bs a hc hdrop => hc.drops hdrop
  cases h with
  | ofVariable hname htype hb => exact .ofVariable hname htype (himp hb hscope)
  | ofFunction hname htype hb => exact .ofFunction hname htype (himp hb hscope)
  | ofTypeAlias hlower hdecl hb =>
    obtain ⟨bs, hdecl, hbs⟩ := hscope.declares hdecl
    exact .ofTypeAlias hlower hdecl (himp hb hbs)
  | ofInterface hupper hdecl hb =>
    obtain ⟨bs, hdecl, hbs⟩ := hscope.declares hdecl
    exact .ofInterface hupper hdecl (himp hb (hbs.enters hupper _))

/-- Every type variable in the bindings of a file is bound, by binders that are all written
differently, and every reference to a type parameter is written as the type variable of the
innermost one. -/
theorem typeVariables_hygienic {source : String} {items : List Item}
    (h : bindingsOf source = .ok items) :
    (∀ item ∈ items, ∀ x ∈ item.occurrences [], Bound x) ∧
      ∃ file, parse source = .ok file ∧
        List.Forall₂ (fun s item => s.declared.Binds hygiene [] item) file.sites items := by
  obtain ⟨file, hfile⟩ := exists_compiles h
  have hbinds : List.Forall₂ (fun s item => s.declared.Binds hygiene [] item) file.sites items := by
    obtain ⟨hlen, hcompile⟩ := List.forall₂_iff_zip.1 hfile.sites
    refine List.forall₂_iff_zip.2 ⟨hlen, fun {s item} hmem => ?_⟩
    obtain ⟨k, hk⟩ := List.getElem?_of_mem (List.of_mem_zip hmem).1
    exact (Declared.compile_eq_ok (hcompile hmem)).hygienic (File.fits_of_mem_sites hk).shows
  refine ⟨fun item hitem => ?_, file, hfile.parsed, hbinds⟩
  obtain ⟨k, hk⟩ := List.getElem?_of_mem hitem
  obtain ⟨s, -, hs⟩ := exists_left_of_forall₂ hbinds hk
  exact hs.bound

/-- A method with a type parameter that its interface has too: it is renamed, and what stands inside
means the renamed one. -/
theorem typeVariables_hygienic_shadowed : ∃ items item,
    bindingsOf "declare interface A<a> \x7b f<a>(x: a): A<a>; \x7d" = .ok items ∧ item ∈ items ∧
    (["a", "a1"], "a1") ∈ item.occurrences [] ∧ Bound (["a", "a1"], "a1") := by
  have hok : bindingsOf "declare interface A<a> \x7b f<a>(x: a): A<a>; \x7d"
      = .ok [.submodule "A" (interfaceItems ["a"]
        [⟨"f", .arrow ["a1"] [.variable "a1"] (.constructor "t" [.variable "a1"])⟩])] := by
    decide +kernel
  have hmem : (["a", "a1"], "a1") ∈ (Item.submodule "A" (interfaceItems ["a"]
      [⟨"f", .arrow ["a1"] [.variable "a1"] (.constructor "t" [.variable "a1"])⟩])).occurrences [] :=
    by decide
  exact ⟨_, _, hok, List.mem_singleton_self _, hmem,
    (typeVariables_hygienic hok).1 _ (List.mem_singleton_self _) _ hmem⟩

end Ambient
