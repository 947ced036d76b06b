import Ambient.Proofs.Parts
import Mathlib.Logic.Relation
/-!
# Nothing unsupported is left out

A type, a signature or a member is bound only if all that it is made of is supported
(`supported_of_bind`). `Place.parts` walks the whole syntax, the forms that have no binding
included, and gives each part the scope it stands in. It passes over two things that never reach a
binding: the type of a parameter named `this`, and the constraint and the default of a type
parameter.

The proof goes down the syntax from part to part. What is bound has only bound parts
(`Place.Bound.part`), also where they leave no trace in the binding type, as the arms of a union do
that make it nullable; and what is bound is supported (`Place.Bound.supported`).
-/

namespace Ambient

/-! ## Places -/

/-- The scope inside a signature with these type parameters. -/
def Scope.declaring (scope : Scope) (ps : List TypeParameter) : Scope :=
  ps.foldl (fun c p => c.push (.typeVariable p.name (c.freshVariable p.name))) scope

/-- A place in the syntax of types. -/
inductive Place where
  | type (e : TypeExpr)
  | signature (typeParameters : List TypeParameter) (parameters : List Parameter)
      (result : Option TypeExpr)
  | typeParameter (p : TypeParameter)
  | parameter (p : Parameter)
  | member (m : Member)

/-- What stands directly inside a type. -/
def TypeExpr.parts : TypeExpr → List Place
  | .reference _ _ arguments => (arguments.getD []).map .type
  | .array _ _ inner | .parenthesized _ inner | .keyOf _ inner => [.type inner]
  | .tuple _ _ elements => elements.map .type
  | .union _ arms | .intersection _ arms => arms.map .type
  | .function _ typeParameters parameters result
  | .constructor _ typeParameters parameters result =>
    [.signature (typeParameters.getD []) parameters (some result)]
  | .object _ members => members.map .member
  | .indexedAccess _ base index => [.type base, .type index]
  | .literal .. | .query .. | .this _ => []

/-- What stands directly inside a member. -/
def Member.parts : Member → List Place
  | .property _ _ _ _ type => type.toList.map .type
  | .method _ _ _ typeParameters parameters result | .call _ typeParameters parameters result
  | .construct _ typeParameters parameters result =>
    [.signature (typeParameters.getD []) parameters result]
  | .index _ _ _ parameterType type => [.type parameterType, .type type]

namespace Place

/-- What stands directly inside a place in the scope `c`, each with its own scope. -/
def parts (c : Scope) : Place → List (Scope × Place)
  | .type e => e.parts.map (c, ·)
  | .member m => m.parts.map (c, ·)
  | .signature typeParameters parameters result =>
    (typeParameters.map typeParameter ++ parameters.map parameter ++ result.toList.map type).map
      (c.declaring typeParameters, ·)
  | .typeParameter _ => []
  | .parameter p => if p.name = "this" then [] else p.type.toList.map (c, .type ·)

/-- The second place is the first or stands inside it. -/
def Within : Scope × Place → Scope × Place → Prop :=
  Relation.ReflTransGen fun outer inner => inner ∈ outer.2.parts outer.1

/-- What a place in the scope `c` must be like to have a binding, apart from what is inside it. -/
def Supported (c : Scope) : Place → Prop
  | .type (.reference _ name arguments) => ∃ n entry, name = .identifier n ∧
    c.lookup n = some entry ∧ (arguments.getD []).length = entry.arity
  | .type (.tuple _ _ elements) => 2 ≤ elements.length
  | .type (.function _ _ parameters _) => ∀ p ∈ parameters, p.name ≠ "this" → p.rest = false
  | .type (.intersection ..) | .type (.constructor ..) | .type (.indexedAccess ..)
  | .type (.query ..) | .type (.keyOf ..) | .type (.this _) => False
  | .type (.literal ..) | .type (.array ..) | .type (.union ..) | .type (.object ..)
  | .type (.parenthesized ..) => True
  | .signature _ _ result => result.isSome
  | .typeParameter p => Letter.startsLower p.name
  | .parameter p => p.name ≠ "this" → p.type.isSome
  | .member (.property _ _ key _ declared) => key.toList.head? ≠ some '[' ∧ declared.isSome
  | .member (.method _ key _ _ parameters _) =>
    key.toList.head? ≠ some '[' ∧ ∀ p ∈ parameters, p.name ≠ "this" → p.rest = false
  | .member (.call ..) | .member (.construct ..) | .member (.index ..) => False

/-- A place in the scope `c` is bound, or is one that a binding looks at and leaves out. -/
def Bound (c : Scope) : Place → Prop
  | .type e => ∃ t, Binds Scope.discipline c (.type e) t
  | .signature typeParameters parameters result => ∃ e t, result = some e ∧
    Binds Scope.discipline c (.signature typeParameters parameters e) t
  | .typeParameter p => Letter.startsLower p.name
  | .parameter p => p.name ≠ "this" → ∃ t, Binds Scope.discipline c (.parameter p) t
  | .member m => ∃ t, Binds Scope.discipline c (.member m) t

end Place

/-! ## Scopes of signatures -/

theorem Scope.declareTypeParameters_eq_ok {c inner : Scope} {ps : List TypeParameter}
    {vs : List String} (h : c.declareTypeParameters ps = .ok (inner, vs)) :
    inner = c.declaring ps ∧ ∀ p ∈ ps, Letter.startsLower p.name := by
  induction ps generalizing c vs with
  | nil =>
    unfold Scope.declareTypeParameters at h
    cases h
    exact ⟨rfl, by simp⟩
  | cons p ps ih =>
    unfold Scope.declareTypeParameters at h
    split at h
    · rename_i hlower
      obtain ⟨⟨scope, others⟩, hothers, h⟩ := Compiled.bind_eq_ok.1 h
      cases h
      obtain ⟨rfl, hall⟩ := ih hothers
      exact ⟨rfl, List.forall_mem_cons.2 ⟨hlower, hall⟩⟩
    · cases h

theorem mem_passed {ps : List Parameter} {p : Parameter} :
    p ∈ passed ps ↔ p ∈ ps ∧ p.name ≠ "this" := by
  simp [passed]

/-! ## From a place to its parts -/

namespace Place

/-- The first of two lists, member by member with the second. -/
theorem exists_of_forall_mem_zip {α β : Type} {as : List α} {bs : List β} {a : α}
    {P : α × β → Prop} (h : as.length = bs.length) (hzip : ∀ p ∈ as.zip bs, P p) (ha : a ∈ as) :
    ∃ b, P (a, b) := by
  rw [← List.map_fst_zip (Nat.le_of_eq h)] at ha
  obtain ⟨⟨_, b⟩, hab, rfl⟩ := List.mem_map.1 ha
  exact ⟨b, hzip _ hab⟩

variable {c : Scope}

/-- An arm that makes a union nullable is bound, too. -/
theorem bound_of_isNullish {e : TypeExpr} (h : c.isNullish e) : Bound c (.type e) := by
  obtain ⟨t, ht⟩ := (Scope.isNullish_iff.1 h).exists_bind
  exact ⟨t, TypeExpr.binds c e t ht⟩

theorem bound_type_part {e : TypeExpr} {t : Ty} (h : Binds Scope.discipline c (.type e) t) :
    ∀ place ∈ e.parts, Bound c place := by
  intro place hplace
  cases h with
  | reference hlen hbinds _ | tuple _ hlen hbinds =>
    obtain ⟨a, ha, rfl⟩ := List.mem_map.1 hplace
    exact exists_of_forall_mem_zip hlen hbinds ha
  | literal => cases hplace
  | array hbinds | parenthesized hbinds =>
    obtain rfl := List.mem_singleton.1 hplace
    exact ⟨_, hbinds⟩
  | nullable _ hdrops hbinds =>
    obtain ⟨a, ha, rfl⟩ := List.mem_map.1 hplace
    rcases List.mem_append.1 ha with ha | ha
    · exact bound_of_isNullish (hdrops a (List.mem_append_left _ ha))
    · rcases List.mem_cons.1 ha with rfl | ha
      · exact ⟨_, hbinds⟩
      · exact bound_of_isNullish (hdrops a (List.mem_append_right _ ha))
  | alike _ hbinds =>
    obtain ⟨a, ha, rfl⟩ := List.mem_map.1 hplace
    exact ⟨t, hbinds a ha⟩
  | function _ hbinds =>
    obtain rfl := List.mem_singleton.1 hplace
    exact ⟨_, t, rfl, hbinds⟩
  | object hlen _ _ hbinds =>
    obtain ⟨m, hm, rfl⟩ := List.mem_map.1 hplace
    obtain ⟨field, hfield⟩ := exists_of_forall_mem_zip hlen hbinds hm
    exact ⟨field.type, hfield⟩

theorem bound_member_part {m : Member} {t : Ty} (h : Binds Scope.discipline c (.member m) t) :
    ∀ place ∈ m.parts, Bound c place := by
  intro place hplace
  cases h with
  | property _ hbinds =>
    obtain rfl := List.mem_singleton.1 hplace
    exact ⟨_, hbinds⟩
  | method _ _ hbinds =>
    obtain rfl := List.mem_singleton.1 hplace
    exact ⟨_, _, rfl, hbinds⟩

theorem bound_signature_part {typeParameters : List TypeParameter} {parameters : List Parameter}
    {result : TypeExpr} {t : Ty}
    (h : Binds Scope.discipline c (.signature typeParameters parameters result) t) :
    (∀ p ∈ typeParameters, Letter.startsLower p.name) ∧
      (∀ p ∈ parameters, Bound (c.declaring typeParameters) (.parameter p)) ∧
      Bound (c.declaring typeParameters) (.type result) := by
  cases h with
  | signature hdecl hlen hparameters hresult =>
    obtain ⟨rfl, hlower⟩ := Scope.declareTypeParameters_eq_ok hdecl
    refine ⟨hlower, fun p hp hthis => ?_, _, hresult⟩
    exact exists_of_forall_mem_zip hlen hparameters (mem_passed.2 ⟨hp, hthis⟩)

/-- What is bound has only bound parts. -/
theorem Bound.part {place : Place} (h : Bound c place) :
    ∀ inner ∈ place.parts c, Bound inner.1 inner.2 := by
  intro inner hinner
  cases place with
  | type e =>
    obtain ⟨t, ht⟩ := h
    obtain ⟨place, hplace, rfl⟩ := List.mem_map.1 hinner
    exact bound_type_part ht place hplace
  | member m =>
    obtain ⟨t, ht⟩ := h
    obtain ⟨place, hplace, rfl⟩ := List.mem_map.1 hinner
    exact bound_member_part ht place hplace
  | signature typeParameters parameters result =>
    obtain ⟨e, t, rfl, ht⟩ := h
    obtain ⟨hlower, hparameters, hresult⟩ := bound_signature_part ht
    obtain ⟨place, hplace, rfl⟩ := List.mem_map.1 hinner
    rcases List.mem_append.1 hplace with hplace | hplace
    · rcases List.mem_append.1 hplace with hplace | hplace
      · obtain ⟨p, hp, rfl⟩ := List.mem_map.1 hplace
        exact hlower p hp
      · obtain ⟨p, hp, rfl⟩ := List.mem_map.1 hplace
        exact hparameters p hp
    · obtain rfl := List.mem_singleton.1 hplace
      exact hresult
  | typeParameter p => cases hinner
  | parameter p =>
    rw [parts] at hinner
    split at hinner
    · cases hinner
    · rename_i hthis
      obtain ⟨t, ht⟩ := h hthis
      obtain ⟨e, he, rfl⟩ := List.mem_map.1 hinner
      cases ht with
      | parameter htype _ hbinds =>
        cases htype.symm.trans (Option.mem_toList.1 he)
        exact ⟨_, hbinds⟩

theorem Bound.within {place : Place} (h : Bound c place) {inner : Scope × Place}
    (hinner : Within (c, place) inner) : Bound inner.1 inner.2 := by
  induction hinner with
  | refl => exact h
  | tail _ hpart ih => exact ih.part _ hpart

/-! ## What is bound is supported -/

theorem rest_eq_false_of_passed {ps : List Parameter} (h : ∀ p ∈ passed ps, p.rest = false) :
    ∀ p ∈ ps, p.name ≠ "this" → p.rest = false :=
  fun p hp hthis => h p (mem_passed.2 ⟨hp, hthis⟩)

theorem Bound.supported {place : Place} (h : Bound c place) : place.Supported c := by
  cases place with
  | type e =>
    obtain ⟨t, ht⟩ := h
    cases ht with
    | reference hlen _ hrefers =>
      obtain ⟨entry, hlookup, harity, -, -⟩ := hrefers
      exact ⟨_, entry, rfl, hlookup, hlen.trans harity⟩
    | tuple htwo _ _ => exact htwo
    | function hrest _ => exact rest_eq_false_of_passed hrest
    | literal | array | nullable | alike | object | parenthesized => trivial
  | member m =>
    obtain ⟨t, ht⟩ := h
    cases ht with
    | property hkey _ => exact ⟨hkey, rfl⟩
    | method hkey hrest _ => exact ⟨hkey, rest_eq_false_of_passed hrest⟩
  | signature typeParameters parameters result =>
    obtain ⟨e, t, rfl, -⟩ := h
    rfl
  | typeParameter p => exact h
  | parameter p =>
    intro hthis
    obtain ⟨t, ht⟩ := h hthis
    cases ht with
    | parameter htype _ _ => exact Option.isSome_of_eq_some htype

end Place

/-- Where a type, a signature or a list of members is bound, all that stands inside is supported. -/
theorem supported_of_bind (c : Scope) :
    (∀ e t, TypeExpr.bind c e = .ok t → ∀ inner, Place.Within (c, .type e) inner →
      inner.2.Supported inner.1) ∧
    (∀ span owner typeParameters parameters result s,
      bindFunction c span owner typeParameters parameters result = .ok s → ∀ inner,
      Place.Within (c, .signature (typeParameters.getD []) parameters result) inner →
      inner.2.Supported inner.1) ∧
    (∀ seen members fields, bindMembers c seen members = .ok fields → ∀ m ∈ members, ∀ inner,
      Place.Within (c, .member m) inner → inner.2.Supported inner.1) := by
  refine ⟨fun e t h inner hinner => ?_, fun span owner typeParameters parameters result s h inner
    hinner => ?_, fun seen members fields h m hm inner hinner => ?_⟩
  · have hbound : Place.Bound c (.type e) := ⟨t, TypeExpr.binds c e t h⟩
    exact (hbound.within hinner).supported
  · obtain ⟨e, rfl, hbinds⟩ := bindFunction_binds h
    have hbound : Place.Bound c (.signature (typeParameters.getD []) parameters (some e)) :=
      ⟨e, s.type, rfl, hbinds⟩
    exact (hbound.within hinner).supported
  · obtain ⟨field, -, hfield⟩ := exists_of_bindMembers h hm
    have hbound : Place.Bound c (.member m) := ⟨field.type, (Member.binds c m field hfield).2⟩
    exact (hbound.within hinner).supported

/-- In `<a>(this: this, x: a[]) => void` the type of `this` is passed over, and the `a` in the type
of `x` is resolved in the scope of the signature. A declared function may have a rest parameter. -/
theorem supported_of_bind_receiver :
    let a : TypeExpr := .reference ⟨19, 20⟩ (.identifier "a") none
    let void : TypeExpr := .reference ⟨27, 31⟩ (.identifier "void") none
    let e : TypeExpr := .function ⟨0, 31⟩ (some [⟨⟨1, 2⟩, "a", none, none⟩])
      [⟨⟨4, 14⟩, "this", false, false, some (.this ⟨10, 14⟩)⟩,
        ⟨⟨16, 22⟩, "x", false, false, some (.array ⟨19, 22⟩ false a)⟩] void
    let inner := Scope.prelude.push (.typeVariable "a" "a")
    let xs : Parameter := ⟨⟨0, 9⟩, "xs", false, true, some (.array ⟨5, 9⟩ false void)⟩
    let m : Member := .property ⟨0, 9⟩ false "k" true (some e)
    (e.bind .prelude = .ok (.arrow ["a"] [.constructor "array" [.variable "a"]] .unit) ∧
      Place.Within (.prelude, .type e) (inner, .type a) ∧ Place.Supported inner (.type a)) ∧
    (∃ s, bindFunction .prelude ⟨0, 9⟩ (.function "f") none [xs] (some void) = .ok s ∧
      Place.Supported .prelude (.signature [] [xs] (some void))) ∧
    ∃ fields, bindMembers .prelude [] [m] = .ok fields ∧ Place.Supported .prelude (.member m) := by
  intro a void e inner xs m
  obtain ⟨htype, hsignature, hmembers⟩ := supported_of_bind .prelude
  have hbind : e.bind .prelude
      = .ok (.arrow ["a"] [.constructor "array" [.variable "a"]] .unit) := by decide +kernel
  have hwithin : Place.Within (.prelude, .type e) (inner, .type a) := by
    have hscope : inner = Scope.prelude.declaring [⟨⟨1, 2⟩, "a", none, none⟩] := by decide +kernel
    rw [hscope]
    -- from the function to its signature, its parameter `x`, the array and the element
    exact .head (.head _) (.head (.tail _ (.tail _ (.head _)))
      (.head (.head _) (.single (.head _))))
  obtain ⟨s, hs⟩ : ∃ s, bindFunction .prelude ⟨0, 9⟩ (.function "f") none [xs] (some void)
      = .ok s := ⟨_, rfl⟩
  obtain ⟨fields, hfields⟩ : ∃ fields, bindMembers .prelude [] [m] = .ok fields := ⟨_, rfl⟩
  exact ⟨⟨hbind, hwithin, htype _ _ hbind _ hwithin⟩,
    ⟨s, hs, hsignature _ _ _ _ _ _ hs _ .refl⟩,
    ⟨fields, hfields, hmembers _ _ _ hfields m (.head _) _ .refl⟩⟩

end Ambient
