import Ambient.Proofs.Sites
/-!
# What variadic externals spread

An external is variadic if it is made of a function that has a rest parameter, and then its last
argument is spread. The arguments are those of the parameters in order, so what is spread is what
the last parameter takes, wherever the rest parameter stands. It is the array of a rest parameter
if and only if the last parameter is one and is not optional (`variadic_spreads_last`).
-/

namespace Ambient

/-! ## The externals of items -/

mutual

/-- All externals of an item, those of the modules in it included. -/
def Item.externals : Item → List Extern
  | .external e => [e]
  | .typeDeclaration _ => []
  | .submodule _ items => externalsOf items

/-- All externals of items. -/
def externalsOf : List Item → List Extern
  | [] => []
  | item :: items => item.externals ++ externalsOf items

end

theorem mem_externalsOf {e : Extern} {items : List Item} :
    e ∈ externalsOf items ↔ ∃ item ∈ items, e ∈ item.externals := by
  induction items with
  | nil => simp [externalsOf]
  | cons item items ih => simp [externalsOf, ih]

theorem isVariadic_of_mem_interfaceItems {vs : List String} {fields : List Field} {e : Extern}
    (h : e ∈ externalsOf (interfaceItems vs fields)) : e.isVariadic = false := by
  obtain ⟨item, hitem, he⟩ := mem_externalsOf.1 h
  rcases List.mem_cons.1 hitem with rfl | hitem
  · rw [Item.externals] at he
    cases he
  · obtain ⟨field, -, rfl⟩ := List.mem_map.1 hitem
    rw [Field.getter, Item.externals] at he
    obtain rfl := List.mem_singleton.1 he
    rfl

/-! ## The arguments of a function -/

/-- The type that a parameter is declared with is bound to `t` in the scope of the signature; that
of a rest parameter is an array. -/
def Parameter.BoundTo (inner : Scope) (p : Parameter) (t : Ty) : Prop :=
  (∃ declared, p.type = some declared ∧ declared.bind inner = .ok t) ∧ (p.rest → t.isArray)

/-- The type of the argument that is passed for a parameter. -/
def Parameter.Takes (inner : Scope) (p : Parameter) (t : Ty) : Prop :=
  ∃ bound, p.BoundTo inner bound ∧ t = bound.optionally p.optional

/-- The external is made of the function in the scope, with `inner` the scope of its signature and
arguments of the types `ts`, one for each parameter that is passed. -/
structure Function.Makes (scope inner : Scope) (d : Function) (ts : List Ty) (e : Extern) :
    Prop where
  compiled : d.compile scope = .ok (.external e)
  type : ∃ vs r, scope.declareTypeParameters? d.typeParameters = .ok (inner, vs) ∧
    e.type = .arrow vs ts r
  arguments : List.Forall₂ (Parameter.Takes inner) (passed d.parameters) ts

/-- The last argument is that of a rest parameter, and is the array that it declares. -/
def SpreadsRest (inner : Scope) (ps : List Parameter) (ts : List Ty) : Prop :=
  ∃ p t, (passed ps).getLast? = some p ∧ p.rest ∧ p.BoundTo inner t ∧ ts.getLast? = some t

theorem bindParameters_takes {inner : Scope} {owner : SignatureOwner} {ps : List Parameter}
    {bound : BoundParameters} (h : bindParameters inner owner ps = .ok bound) :
    List.Forall₂ (Parameter.Takes inner) (passed ps) bound.types := by
  induction ps generalizing bound with
  | nil =>
    rw [bindParameters] at h
    obtain rfl := Except.ok.inj h
    exact .nil
  | cons p ps ih =>
    obtain ⟨span, name, optional, rest, type⟩ := p
    rw [bindParameters] at h
    split at h
    · rename_i hthis
      rw [passed, List.filter_cons_of_neg (by simpa using hthis)]
      exact ih h
    · rename_i hthis
      rw [passed, List.filter_cons_of_pos (by simpa using hthis)]
      obtain ⟨t, ht, h⟩ := Compiled.bind_eq_ok.1 h
      split at h
      · cases h
      · rename_i harray
        obtain ⟨others, hothers, h⟩ := Compiled.bind_eq_ok.1 h
        obtain rfl := Except.ok.inj h
        refine .cons ⟨t, ⟨?_, by simpa using harray⟩, rfl⟩ (ih hothers)
        cases type with
        | none =>
          rw [bindRequired] at ht
          cases ht
        | some declared =>
          rw [bindRequired] at ht
          exact ⟨declared, rfl, ht⟩

/-- A variadic external of a function has an argument for each parameter that is passed, one of
which is a rest parameter. -/
theorem Function.makes_of_isVariadic {scope : Scope} {d : Function} {e : Extern}
    (h : d.compile scope = .ok (.external e)) (hvariadic : e.isVariadic) :
    ∃ inner ts, d.Makes scope inner ts e ∧ ∃ p ∈ passed d.parameters, p.rest := by
  have hcompile := h
  unfold Function.compile bindFunction at h
  obtain ⟨signature, hsignature, h⟩ := Compiled.bind_eq_ok.1 h
  obtain ⟨⟨inner, vs⟩, hdeclare, hsignature⟩ := Compiled.bind_eq_ok.1 hsignature
  obtain ⟨bound, hbound, hsignature⟩ := Compiled.bind_eq_ok.1 hsignature
  obtain ⟨r, -, hsignature⟩ := Compiled.bind_eq_ok.1 hsignature
  obtain rfl := Except.ok.inj hsignature
  obtain rfl := Item.external.inj (Except.ok.inj h)
  have htakes := bindParameters_takes hbound
  have hrest : ∃ p ∈ passed d.parameters, p.rest := by
    rw [← List.any_eq_true, ← (bindParameters_binds inner _ _ bound hbound).rest]
    exact hvariadic
  refine ⟨inner, bound.types, ⟨hcompile, ⟨vs, r, hdeclare, ?_⟩, htakes⟩, hrest⟩
  -- A parameter is passed, so the arguments are not the one that stands for none.
  obtain ⟨p, hp, -⟩ := hrest
  have hne : bound.types ≠ [] := by
    rw [← List.length_pos_iff, ← htakes.length_eq]
    exact List.length_pos_of_mem hp
  simp [BoundSignature.make, BoundSignature.type, hne]

theorem getLast?_of_forall₂ {α β : Type} {R : α → β → Prop} {xs : List α} {ys : List β} {x : α}
    (h : List.Forall₂ R xs ys) (hx : xs.getLast? = some x) : ∃ y, ys.getLast? = some y ∧ R x y := by
  rw [List.getLast?_eq_getElem?] at hx
  rw [List.getLast?_eq_getElem?, ← h.length_eq]
  exact exists_right_of_forall₂ h hx

theorem spreadsRest_iff {inner : Scope} {ps : List Parameter} {ts : List Ty}
    (h : List.Forall₂ (Parameter.Takes inner) (passed ps) ts) :
    SpreadsRest inner ps ts ↔
      ∃ p, (passed ps).getLast? = some p ∧ p.rest ∧ p.optional = false := by
  constructor
  · rintro ⟨p, t, hlast, hrest, hbound, ht⟩
    refine ⟨p, hlast, hrest, ?_⟩
    obtain ⟨_, ht', bound, -, rfl⟩ := getLast?_of_forall₂ h hlast
    obtain rfl : t = bound.optionally p.optional := Option.some.inj (ht.symm.trans ht')
    -- A type that may be left out is not an array.
    cases hoptional : p.optional with
    | false => rfl
    | true =>
      have harray := hbound.2 hrest
      rw [hoptional] at harray
      cases harray
  · rintro ⟨p, hlast, hrest, hoptional⟩
    obtain ⟨_, ht, bound, hbound, rfl⟩ := getLast?_of_forall₂ h hlast
    rw [hoptional] at ht
    exact ⟨p, bound, hlast, hrest, hbound, ht⟩

/-! ## Files -/

/-- A variadic external is that of a function: those of variables and of fields are not. -/
theorem Declared.exists_function {scope : Scope} {d : Declared} {item : Item} {e : Extern}
    (h : d.compile scope = .ok item) (he : e ∈ item.externals) (hvariadic : e.isVariadic) :
    ∃ f, d = .ofFunction f ∧ f.compile scope = .ok (.external e) := by
  cases d with
  | ofVariable d =>
    change d.compile scope = .ok item at h
    unfold Variable.compile at h
    split at h
    · cases h
    · obtain ⟨type, -, h⟩ := Compiled.bind_eq_ok.1 h
      obtain rfl := Except.ok.inj h
      rw [Scope.external, Item.externals] at he
      obtain rfl := List.mem_singleton.1 he
      cases hvariadic
  | ofFunction f =>
    refine ⟨f, rfl, ?_⟩
    cases Declared.compile_eq_ok h
    rw [Item.externals] at he
    obtain rfl := List.mem_singleton.1 he
    exact h
  | ofTypeAlias d =>
    cases Declared.compile_eq_ok h
    rw [Item.externals] at he
    cases he
  | ofInterface d =>
    cases Declared.compile_eq_ok h
    rw [Item.externals] at he
    rw [isVariadic_of_mem_interfaceItems he] at hvariadic
    cases hvariadic
  | ofMisnamed span => cases h

/-- A variadic external of the bindings of a file, wherever it stands in them, is made of a function
that has a rest parameter. Its type is that of a function with one argument for each parameter that
is passed. The last one, which is spread, is the array of a rest parameter if and only if the last
parameter is a rest parameter and is not optional. -/
theorem variadic_spreads_last {source : String} {items : List Item}
    (h : bindingsOf source = .ok items) {e : Extern} (he : e ∈ externalsOf items)
    (hvariadic : e.isVariadic) : ∃ file site d inner ts,
      parse source = .ok file ∧ site ∈ file.sites ∧ site.declared = .ofFunction d ∧
      d.Makes site.view.scope inner ts e ∧
      (∃ p ∈ passed d.parameters, p.rest) ∧
      (SpreadsRest inner d.parameters ts ↔
        ∃ p, (passed d.parameters).getLast? = some p ∧ p.rest ∧ p.optional = false) := by
  obtain ⟨file, hfile⟩ := exists_compiles h
  obtain ⟨item, hitem, he⟩ := mem_externalsOf.1 he
  obtain ⟨k, hk⟩ := List.mem_iff_getElem?.1 hitem
  obtain ⟨site, hsite, hcompile⟩ := exists_left_of_forall₂ hfile.sites hk
  obtain ⟨d, hd, hmade⟩ := Declared.exists_function hcompile he hvariadic
  obtain ⟨inner, ts, hmakes, hrest⟩ := Function.makes_of_isVariadic hmade hvariadic
  exact ⟨file, site, d, inner, ts, hfile.parsed, List.mem_of_getElem? hsite, hd, hmakes, hrest,
    spreadsRest_iff hmakes.arguments⟩

/-- A function whose receiver is typed, with a rest parameter at the end. -/
theorem variadic_spreads_last_receiver :
    ∃ items e, bindingsOf
        "declare function join(this: object, base: string, ...parts: Array<string>): string;"
        = .ok items ∧
      e ∈ externalsOf items ∧ e.isVariadic ∧ ∃ file site d inner ts,
        parse "declare function join(this: object, base: string, ...parts: Array<string>): string;"
          = .ok file ∧
        site ∈ file.sites ∧ site.declared = .ofFunction d ∧
        d.Makes site.view.scope inner ts e ∧
        (∃ p ∈ passed d.parameters, p.rest) ∧
        (SpreadsRest inner d.parameters ts ↔
          ∃ p, (passed d.parameters).getLast? = some p ∧ p.rest ∧ p.optional = false) := by
  have hok : bindingsOf
      "declare function join(this: object, base: string, ...parts: Array<string>): string;"
      = .ok [.external ⟨none, false, "join", .arrow []
          [.named "string", .constructor "array" [.named "string"]] (.named "string"),
        false, true⟩] := by
    decide +kernel
  exact ⟨_, _, hok, List.mem_singleton_self _, rfl,
    variadic_spreads_last hok (List.mem_singleton_self _) rfl⟩

/-- A rest parameter may stand before others or be optional, and then what is spread is not an
array. -/
theorem variadic_last_not_array :
    (∃ e, bindingsOf "declare function f(...xs: number[], y: string): void;"
        = .ok [.external e] ∧ e.isVariadic ∧
      e.type = .arrow [] [.constructor "array" [.named "float"], .named "string"] .unit) ∧
    ∃ e, bindingsOf "declare function f(...xs?: number[]): void;" = .ok [.external e] ∧
      e.isVariadic ∧
      e.type = .arrow [] [.orUndefined (.constructor "array" [.named "float"])] .unit := by
  have hok : bindingsOf "declare function f(...xs: number[], y: string): void;"
      = .ok [.external ⟨none, false, "f", .arrow []
          [.constructor "array" [.named "float"], .named "string"] .unit, false, true⟩] ∧
      bindingsOf "declare function f(...xs?: number[]): void;"
      = .ok [.external ⟨none, false, "f", .arrow []
          [.orUndefined (.constructor "array" [.named "float"])] .unit, false, true⟩] := by
    decide +kernel
  exact ⟨⟨_, hok.1, rfl, rfl⟩, _, hok.2, rfl, rfl⟩

end Ambient
