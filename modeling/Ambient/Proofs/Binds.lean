import Ambient.Compile.Type
import Ambient.Proofs.Shown
/-!
# How declared types are bound

`Binds` relates a declared type to its binding type, one rule for each form of type. It leaves open
what names mean: a `Discipline` says in which contexts types stand, what a reference means there and
how type parameters are written. With the scopes of the compiler for contexts, every type that is
bound is related to what it is bound to (`TypeExpr.binds`). Other disciplines say what names should
mean, and `Binds.imp` carries a binding from one to the other.
-/

namespace Ambient

/-- The contexts that declared types stand in and what names mean there. -/
structure Discipline (σ : Type) where
  /-- A reference to a name, applied to arguments that are bound already, is bound to the type. -/
  refers : σ → String → List Ty → Ty → Prop
  /-- Type parameters lead to an inner context, where they are written as the type variables. -/
  declares : σ → List TypeParameter → σ → List String → Prop
  /-- The context in the body of an interface, by its name and the number of its parameters. -/
  enters : σ → String → Nat → σ
  /-- An arm that a nullable union leaves out. -/
  drops : σ → TypeExpr → Prop

/-- The syntax that is bound to a type. -/
inductive Part where
  | type (e : TypeExpr)
  | parameter (p : Parameter)
  | signature (typeParameters : List TypeParameter) (parameters : List Parameter)
      (result : TypeExpr)
  | member (m : Member)

/-- The parameters that arguments are passed for. -/
def passed (ps : List Parameter) : List Parameter := ps.filter (·.name != "this")

/-- A type that may be left out if the member or parameter is optional. -/
def Ty.optionally (optional : Bool) (t : Ty) : Ty := if optional then t.orUndefined else t

/-- The key of a member; a signature has none. -/
def Member.key : Member → String
  | .property _ _ key .. | .method _ key .. => key
  | .call .. | .construct .. | .index .. => ""

/-- The type of a literal. -/
def Literal.target : Literal → Ty
  | .string _ => .named "string"
  | .number _ => .named "float"
  | .boolean _ => .named "bool"

/-- Syntax is bound to a type in a context. -/
inductive Binds {σ : Type} (d : Discipline σ) : σ → Part → Ty → Prop
  | reference {c span name arguments ts t} :
    (arguments.getD []).length = ts.length →
    (∀ p ∈ (arguments.getD []).zip ts, Binds d c (.type p.1) p.2) →
    d.refers c name ts t →
    Binds d c (.type (.reference span (.identifier name) arguments)) t
  | literal {c span l} : Binds d c (.type (.literal span l)) l.target
  | array {c span readonly element t} :
    Binds d c (.type element) t →
    Binds d c (.type (.array span readonly element)) (.constructor "array" [t])
  | tuple {c span readonly elements ts} :
    2 ≤ elements.length →
    elements.length = ts.length →
    (∀ p ∈ elements.zip ts, Binds d c (.type p.1) p.2) →
    Binds d c (.type (.tuple span readonly elements)) (.tuple ts)
  | nullable {c span before arm after t} :
    before ++ after ≠ [] →
    (∀ a ∈ before ++ after, d.drops c a) →
    Binds d c (.type arm) t →
    Binds d c (.type (.union span (before ++ arm :: after))) t.orNullish
  | alike {c span arms t} :
    arms ≠ [] →
    (∀ a ∈ arms, Binds d c (.type a) t) →
    Binds d c (.type (.union span arms)) t
  | function {c span typeParameters parameters result t} :
    (∀ p ∈ passed parameters, p.rest = false) →
    Binds d c (.signature (typeParameters.getD []) parameters result) t →
    Binds d c (.type (.function span typeParameters parameters result)) t
  | object {c span members fields} :
    members.length = fields.length →
    (∀ p ∈ members.zip fields, p.2.name = p.1.key) →
    (fields.map (lowerIdent ·.name)).Nodup →
    (∀ p ∈ members.zip fields, Binds d c (.member p.1) p.2.type) →
    Binds d c (.type (.object span members)) (.object fields)
  | parenthesized {c span inner t} :
    Binds d c (.type inner) t →
    Binds d c (.type (.parenthesized span inner)) t
  | parameter {c p e t} :
    p.type = some e →
    (p.rest → t.isArray) →
    Binds d c (.type e) t →
    Binds d c (.parameter p) (t.optionally p.optional)
  | signature {c typeParameters parameters result inner vs ts r} :
    d.declares c typeParameters inner vs →
    (passed parameters).length = ts.length →
    (∀ p ∈ (passed parameters).zip ts, Binds d inner (.parameter p.1) p.2) →
    Binds d inner (.type result) r →
    Binds d c (.signature typeParameters parameters result)
      (.arrow vs (if ts.isEmpty then [.unit] else ts) r)
  | property {c span readonly key optional e t} :
    key.toList.head? ≠ some '[' →
    Binds d c (.type e) t →
    Binds d c (.member (.property span readonly key optional (some e))) (t.optionally optional)
  | method {c span key optional typeParameters parameters result t} :
    key.toList.head? ≠ some '[' →
    (∀ p ∈ passed parameters, p.rest = false) →
    Binds d c (.signature (typeParameters.getD []) parameters result) t →
    Binds d c (.member (.method span key optional typeParameters parameters (some result)))
      (t.optionally optional)

/-- A property of types that their parts have too. -/
structure Discipline.Inherits {σ : Type} (d : Discipline σ) (P : Ty → Prop) : Prop where
  refers : ∀ {c name ts t}, d.refers c name ts t → P t → ∀ u ∈ ts, P u
  array : ∀ {t}, P (.constructor "array" [t]) → P t
  tuple : ∀ {ts}, P (.tuple ts) → ∀ t ∈ ts, P t
  nullish : ∀ {t : Ty}, P t.orNullish → P t
  undefined : ∀ {t : Ty}, P t.orUndefined → P t
  object : ∀ {fs}, P (.object fs) → ∀ f ∈ fs, P f.type
  arrow : ∀ {vs ts r}, P (.arrow vs ts r) → (∀ t ∈ ts, P t) ∧ P r

theorem Discipline.Inherits.optionally {σ : Type} {d : Discipline σ} {P : Ty → Prop}
    (h : d.Inherits P) {t : Ty} {optional : Bool} (ht : P (t.optionally optional)) : P t := by
  unfold Ty.optionally at ht
  split at ht
  · exact h.undefined ht
  · exact ht

/-- Carries a binding from one discipline to another, along contexts that correspond. What is known
of a type by `P` is known of every type that a reference in it is bound to. -/
theorem Binds.imp {σ τ : Type} {d : Discipline σ} {e : Discipline τ} (R : σ → τ → Prop)
    {P : Ty → Prop} (hP : d.Inherits P)
    (hrefers : ∀ c c' name ts t, R c c' → P t → d.refers c name ts t → e.refers c' name ts t)
    (hdeclares : ∀ c c' ps inner vs, R c c' → d.declares c ps inner vs →
      ∃ inner', e.declares c' ps inner' vs ∧ R inner inner')
    (hdrops : ∀ c c' a, R c c' → d.drops c a → e.drops c' a)
    {c : σ} {part : Part} {t : Ty} (h : Binds d c part t) {c' : τ} (hc : R c c') (ht : P t) :
    Binds e c' part t := by
  induction h generalizing c' with
  | reference hlen _ href ih =>
    refine .reference hlen (fun p hp => ih p hp hc ?_) (hrefers _ _ _ _ _ hc ht href)
    exact hP.refers href ht _ (List.of_mem_zip hp).2
  | literal => exact .literal
  | array _ ih => exact .array (ih hc (hP.array ht))
  | tuple htwo hlen _ ih =>
    exact .tuple htwo hlen fun p hp => ih p hp hc (hP.tuple ht _ (List.of_mem_zip hp).2)
  | nullable hne hdrop _ ih =>
    exact .nullable hne (fun a ha => hdrops _ _ a hc (hdrop a ha)) (ih hc (hP.nullish ht))
  | alike hne _ ih => exact .alike hne fun a ha => ih a ha hc ht
  | function hrest _ ih => exact .function hrest (ih hc ht)
  | object hlen hkeys hnodup _ ih =>
    exact .object hlen hkeys hnodup fun p hp =>
      ih p hp hc (hP.object ht _ (List.of_mem_zip hp).2)
  | parenthesized _ ih => exact .parenthesized (ih hc ht)
  | parameter htype hrest _ ih => exact .parameter htype hrest (ih hc (hP.optionally ht))
  | @signature _ _ _ _ _ _ ts _ hdecl hlen _ _ ihps ihr =>
    obtain ⟨inner', hdecl', hinner⟩ := hdeclares _ _ _ _ _ hc hdecl
    obtain ⟨hts, hr⟩ := hP.arrow ht
    refine .signature hdecl' hlen (fun p hp => ihps p hp hinner ?_) (ihr hinner hr)
    have hmem := (List.of_mem_zip hp).2
    -- A parameter is passed, so the list is not the one that stands for none.
    rw [if_neg (by simpa using List.ne_nil_of_mem hmem)] at hts
    exact hts _ hmem
  | property hkey _ ih => exact .property hkey (ih hc (hP.optionally ht))
  | method hkey hrest _ ih => exact .method hkey hrest (ih hc (hP.optionally ht))

/-- A property of the types bound in a context that every way of building a type keeps. -/
structure Discipline.Keeps {σ : Type} (d : Discipline σ) (P : σ → Ty → Prop) : Prop where
  refers : ∀ {c name ts t}, d.refers c name ts t → (∀ u ∈ ts, P c u) → P c t
  literal : ∀ {c} (l : Literal), P c l.target
  array : ∀ {c t}, P c t → P c (.constructor "array" [t])
  tuple : ∀ {c ts}, 2 ≤ ts.length → (∀ t ∈ ts, P c t) → P c (.tuple ts)
  nullish : ∀ {c t}, P c t → P c t.orNullish
  undefined : ∀ {c t}, P c t → P c t.orUndefined
  unit : ∀ {c}, P c .unit
  object : ∀ {c fs}, (∀ f ∈ fs, P c f.type) → P c (.object fs)
  arrow : ∀ {c ps inner vs ts r}, d.declares c ps inner vs → ts ≠ [] → (∀ t ∈ ts, P inner t) →
    P inner r → P c (.arrow vs ts r)

/-- The second of two lists, member by member with the first. -/
theorem exists_mem_zip_of_mem {α β : Type} {as : List α} {bs : List β} {b : β}
    (h : as.length = bs.length) (hb : b ∈ bs) : ∃ a, (a, b) ∈ as.zip bs := by
  rw [← List.map_snd_zip (Nat.le_of_eq h.symm)] at hb
  obtain ⟨⟨a, _⟩, hab, rfl⟩ := List.mem_map.1 hb
  exact ⟨a, hab⟩

namespace Binds

variable {σ : Type} {d : Discipline σ} {P : σ → Ty → Prop}

theorem keeps_optionally (h : d.Keeps P) {c : σ} {t : Ty} (ht : P c t) (optional : Bool) :
    P c (t.optionally optional) := by
  unfold Ty.optionally
  split
  · exact h.undefined ht
  · exact ht

/-- What every way of building a type keeps holds of every type that is bound. -/
theorem keeps (h : d.Keeps P) {c : σ} {part : Part} {t : Ty} (hb : Binds d c part t) : P c t := by
  induction hb with
  | reference hlen _ href ih =>
    refine h.refers href fun u hu => ?_
    obtain ⟨a, ha⟩ := exists_mem_zip_of_mem hlen hu
    exact ih _ ha
  | literal => exact h.literal _
  | array _ ih => exact h.array ih
  | tuple htwo hlen _ ih =>
    refine h.tuple (hlen ▸ htwo) fun u hu => ?_
    obtain ⟨a, ha⟩ := exists_mem_zip_of_mem hlen hu
    exact ih _ ha
  | nullable _ _ _ ih => exact h.nullish ih
  | alike hne _ ih =>
    obtain ⟨a, as, rfl⟩ := List.exists_cons_of_ne_nil hne
    exact ih a (by simp)
  | function _ _ ih => exact ih
  | object hlen _ _ _ ih =>
    refine h.object fun f hf => ?_
    obtain ⟨m, hm⟩ := exists_mem_zip_of_mem hlen hf
    exact ih _ hm
  | parenthesized _ ih => exact ih
  | parameter _ _ _ ih => exact keeps_optionally h ih _
  | @signature _ _ _ _ _ _ ts _ hdecl hlen _ _ ihps ihr =>
    by_cases hts : ts = []
    · subst hts
      refine h.arrow hdecl (by simp) (fun t ht => ?_) ihr
      rw [List.mem_singleton.1 ht]
      exact h.unit
    · rw [if_neg (by simpa using hts)]
      refine h.arrow hdecl hts (fun t ht => ?_) ihr
      obtain ⟨p, hp⟩ := exists_mem_zip_of_mem hlen ht
      exact ihps _ hp
  | property _ _ ih => exact keeps_optionally h ih _
  | method _ _ _ ih => exact keeps_optionally h ih _

end Binds

/-! ## The compiler's own discipline -/

/-- Names mean what scopes say. -/
def Scope.discipline : Discipline Scope where
  refers scope name ts t := ∃ entry, scope.lookup name = some entry ∧ ts.length = entry.arity ∧
    Scope.resolve.hiddenBy scope entry = none ∧ t = scope.target ts entry
  declares scope ps inner vs := scope.declareTypeParameters ps = .ok (inner, vs)
  enters scope name arity := (scope.push (.interface name arity)).inInterface name
  drops scope e := scope.isNullish e

theorem Compiled.bind_eq_ok {α β : Type} {x : Compiled α} {f : α → Compiled β} {b : β} :
    (x >>= f) = .ok b ↔ ∃ a, x = .ok a ∧ f a = .ok b := by
  cases x with
  | error e => exact ⟨nofun, nofun⟩
  | ok a =>
    refine ⟨fun h => ⟨a, rfl, h⟩, ?_⟩
    rintro ⟨_, ⟨⟩, h⟩
    exact h

theorem Compiled.map_eq_ok {α β : Type} {x : Compiled α} {f : α → β} {b : β} :
    (x >>= fun a => pure (f a)) = .ok b ↔ ∃ a, x = .ok a ∧ f a = b := by
  rw [Compiled.bind_eq_ok]
  exact exists_congr fun a => and_congr_right fun _ => ⟨Except.ok.inj, congrArg _⟩

theorem Scope.resolve_eq_ok {scope : Scope} {span : Span} {name : EntityName} {count : Nat}
    {entry : Entry} (h : scope.resolve span name count = .ok entry) :
    ∃ n, name = .identifier n ∧ scope.lookup n = some entry ∧ count = entry.arity ∧
      Scope.resolve.hiddenBy scope entry = none := by
  unfold Scope.resolve at h
  split at h
  · cases h
  · split at h
    · cases h
    · split at h
      · cases h
      · split at h
        · cases h
          exact ⟨_, rfl, by assumption, by assumption, by assumption⟩
        · cases h

theorem bindField_eq_ok {span : Span} {key : String} {optional : Bool} {t : Ty} {f : Field}
    (h : bindField span key optional t = .ok f) :
    key.toList.head? ≠ some '[' ∧ f = ⟨key, t.optionally optional⟩ := by
  unfold bindField at h
  split at h
  · cases h
  · cases h
    exact ⟨by assumption, rfl⟩

theorem BoundSignature.plainType_eq_ok {s : BoundSignature} {t : Ty} (h : s.plainType = .ok t) :
    s.rest = none ∧ t = s.type := by
  unfold BoundSignature.plainType at h
  split at h
  · cases h
  · cases h
    exact ⟨by assumption, rfl⟩

/-- What `bindParameters` answers, with `inner` the scope of the signature. -/
structure BindsParameters (inner : Scope) (parameters : List Parameter) (ps : BoundParameters) :
    Prop where
  length : (passed parameters).length = ps.types.length
  types : ∀ p ∈ (passed parameters).zip ps.types, Binds Scope.discipline inner (.parameter p.1) p.2
  rest : ps.rest.isSome = (passed parameters).any (·.rest)

/-- What `bindMembers` answers for members behind the fields `seen`. -/
structure BindsMembers (scope : Scope) (seen : List Field) (members : List Member)
    (fields : List Field) : Prop where
  length : members.length = fields.length
  keys : ∀ p ∈ members.zip fields, p.2.name = p.1.key
  distinct : (fields.map (lowerIdent ·.name)).Nodup
  unseen : ∀ f ∈ fields, ∀ g ∈ seen, lowerIdent g.name ≠ lowerIdent f.name
  types : ∀ p ∈ members.zip fields, Binds Scope.discipline scope (.member p.1) p.2.type

theorem BindsParameters.signature {scope inner : Scope} {typeParameters : List TypeParameter}
    {parameters : List Parameter} {result : TypeExpr} {vs : List String} {ps : BoundParameters}
    {r : Ty} (hps : BindsParameters inner parameters ps)
    (hdecl : scope.declareTypeParameters typeParameters = .ok (inner, vs))
    (hr : Binds Scope.discipline inner (.type result) r) :
    Binds Scope.discipline scope (.signature typeParameters parameters result)
      (BoundSignature.make vs ps r).type :=
  .signature hdecl hps.length hps.types hr

theorem BindsParameters.rest_eq_false {inner : Scope} {parameters : List Parameter}
    {ps : BoundParameters} (hps : BindsParameters inner parameters ps) (h : ps.rest = none) :
    ∀ p ∈ passed parameters, p.rest = false := by
  have hrest := hps.rest
  rw [h] at hrest
  simpa using hrest.symm

/-- If one arm of a union is not nullish and some are, the others are the nullish ones. -/
theorem isNullish_of_filter {scope : Scope} {before after : List TypeExpr} {arm : TypeExpr}
    (hbefore : ∀ a ∈ before, scope.isNullish a) (harm : ¬ scope.isNullish arm)
    (hany : (before ++ arm :: after).any scope.isNullish)
    (hone : ((before ++ arm :: after).filter (!scope.isNullish ·)).length = 1) :
    before ++ after ≠ [] ∧ ∀ a ∈ before ++ after, scope.isNullish a := by
  have hfirst : before.filter (!scope.isNullish ·) = [] := by
    simpa [List.filter_eq_nil_iff] using hbefore
  have hafter : ∀ a ∈ after, scope.isNullish a := by
    rw [List.filter_append, hfirst, List.nil_append, List.filter_cons_of_pos (by simpa using harm)]
      at hone
    simpa [List.filter_eq_nil_iff] using hone
  constructor
  · intro hnil
    obtain ⟨rfl, rfl⟩ := List.append_eq_nil_iff.1 hnil
    exact harm (by simpa using hany)
  · intro a ha
    rcases List.mem_append.1 ha with ha | ha
    · exact hbefore a ha
    · exact hafter a ha

mutual

/-- Every type that is bound is related to what it is bound to. -/
theorem TypeExpr.binds (scope : Scope) : (e : TypeExpr) → (t : Ty) → e.bind scope = .ok t →
    Binds Scope.discipline scope (.type e) t
  | .reference span name arguments, t, h => by
    rw [TypeExpr.bind] at h
    obtain ⟨entry, hentry, h⟩ := Compiled.bind_eq_ok.1 h
    obtain ⟨ts, hts, ht⟩ := Compiled.bind_eq_ok.1 h
    obtain ⟨n, rfl, hlookup, hcount, hhidden⟩ := Scope.resolve_eq_ok hentry
    obtain ⟨hlen, hbinds⟩ := bindArguments_binds scope arguments ts hts
    exact .reference hlen hbinds
      ⟨entry, hlookup, hlen ▸ hcount, hhidden, (Except.ok.inj ht).symm⟩
  | .literal span l, t, h => by
    have ht : t = l.target := by
      cases l <;> (rw [TypeExpr.bind] at h; exact (Except.ok.inj h).symm)
    rw [ht]
    exact .literal
  | .array span readonly element, t, h => by
    rw [TypeExpr.bind] at h
    obtain ⟨u, hu, h⟩ := Compiled.bind_eq_ok.1 h
    obtain rfl := Except.ok.inj h
    exact .array (TypeExpr.binds scope element u hu)
  | .tuple span readonly elements, t, h => by
    rw [TypeExpr.bind] at h
    split at h
    · cases h
    · obtain ⟨ts, hts, h⟩ := Compiled.bind_eq_ok.1 h
      obtain rfl := Except.ok.inj h
      obtain ⟨hlen, hbinds⟩ := bindTypes_binds scope elements ts hts
      exact .tuple (by omega) hlen hbinds
  | .union span arms, t, h => by
    rw [TypeExpr.bind] at h
    split at h
    · rename_i hany
      split at h
      · rename_i hone
        obtain ⟨u, hu, h⟩ := Compiled.bind_eq_ok.1 h
        obtain rfl := Except.ok.inj h
        -- The first arm that is not nullish is the only one, so all others are left out.
        obtain ⟨before, arm, after, rfl, hbefore, harm, hbinds⟩ :=
          bindProper_binds scope span arms u hu
        obtain ⟨hne, hnull⟩ := isNullish_of_filter hbefore harm hany hone
        exact .nullable hne hnull hbinds
      · cases h
    · obtain ⟨hne, hbinds⟩ := bindAlike_binds scope span arms t h
      exact .alike hne hbinds
  | .function span typeParameters parameters result, t, h => by
    rw [TypeExpr.bind] at h
    obtain ⟨⟨inner, vs⟩, hdecl, h⟩ := Compiled.bind_eq_ok.1 h
    obtain ⟨ps, hps, h⟩ := Compiled.bind_eq_ok.1 h
    obtain ⟨r, hr, h⟩ := Compiled.bind_eq_ok.1 h
    obtain ⟨hrest, rfl⟩ := BoundSignature.plainType_eq_ok h
    have hparameters := bindParameters_binds inner .functionType parameters ps hps
    exact .function (hparameters.rest_eq_false hrest)
      (hparameters.signature hdecl (TypeExpr.binds inner result r hr))
  | .object span members, t, h => by
    rw [TypeExpr.bind] at h
    obtain ⟨fields, hfields, h⟩ := Compiled.bind_eq_ok.1 h
    obtain rfl := Except.ok.inj h
    have hmembers := bindMembers_binds scope [] members fields hfields
    exact .object hmembers.length hmembers.keys hmembers.distinct hmembers.types
  | .parenthesized span inner, t, h => by
    rw [TypeExpr.bind] at h
    exact .parenthesized (TypeExpr.binds scope inner t h)
  | .intersection .., _, h | .constructor .., _, h | .indexedAccess .., _, h | .query .., _, h
  | .keyOf .., _, h | .this _, _, h => by
    rw [TypeExpr.bind] at h
    cases h

theorem bindTypes_binds (scope : Scope) : (es : List TypeExpr) → (ts : List Ty) →
    bindTypes scope es = .ok ts →
    es.length = ts.length ∧ ∀ p ∈ es.zip ts, Binds Scope.discipline scope (.type p.1) p.2
  | [], ts, h => by
    rw [bindTypes] at h
    obtain rfl := Except.ok.inj h
    simp
  | e :: es, ts, h => by
    rw [bindTypes] at h
    obtain ⟨t, ht, h⟩ := Compiled.bind_eq_ok.1 h
    obtain ⟨us, hus, h⟩ := Compiled.bind_eq_ok.1 h
    obtain rfl := Except.ok.inj h
    obtain ⟨hlen, hbinds⟩ := bindTypes_binds scope es us hus
    refine ⟨by simp [hlen], ?_⟩
    rw [List.zip_cons_cons]
    rintro p (_ | ⟨_, hp⟩)
    · exact TypeExpr.binds scope e t ht
    · exact hbinds p hp

theorem bindArguments_binds (scope : Scope) : (arguments : Option (List TypeExpr)) →
    (ts : List Ty) → bindArguments scope arguments = .ok ts →
    (arguments.getD []).length = ts.length ∧
      ∀ p ∈ (arguments.getD []).zip ts, Binds Scope.discipline scope (.type p.1) p.2
  | none, ts, h => by
    rw [bindArguments] at h
    obtain rfl := Except.ok.inj h
    simp
  | some es, ts, h => by
    rw [bindArguments] at h
    exact bindTypes_binds scope es ts h

theorem bindProper_binds (scope : Scope) (span : Span) : (arms : List TypeExpr) → (t : Ty) →
    bindProper scope span arms = .ok t →
    ∃ before arm after, arms = before ++ arm :: after ∧ (∀ a ∈ before, scope.isNullish a) ∧
      ¬ scope.isNullish arm ∧ Binds Scope.discipline scope (.type arm) t
  | [], t, h => by
    rw [bindProper] at h
    cases h
  | arm :: arms, t, h => by
    rw [bindProper] at h
    split at h
    · rename_i hnull
      obtain ⟨before, a, after, rfl, hbefore, ha, hbinds⟩ := bindProper_binds scope span arms t h
      exact ⟨arm :: before, a, after, rfl, by simpa using ⟨hnull, hbefore⟩, ha, hbinds⟩
    · rename_i hnull
      exact ⟨[], arm, arms, rfl, by simp, hnull, TypeExpr.binds scope arm t h⟩

theorem bindAlike_binds (scope : Scope) (span : Span) : (arms : List TypeExpr) → (t : Ty) →
    bindAlike scope span arms = .ok t →
    arms ≠ [] ∧ ∀ a ∈ arms, Binds Scope.discipline scope (.type a) t
  | [], t, h => by
    rw [bindAlike] at h
    cases h
  | arm :: arms, t, h => by
    rw [bindAlike] at h
    obtain ⟨u, hu, h⟩ := Compiled.bind_eq_ok.1 h
    obtain ⟨rfl, hbinds⟩ := bindSame_binds scope span u arms t h
    refine ⟨by simp, ?_⟩
    rintro a (_ | ⟨_, ha⟩)
    · exact TypeExpr.binds scope arm t hu
    · exact hbinds a ha

theorem bindSame_binds (scope : Scope) (span : Span) (u : Ty) : (arms : List TypeExpr) →
    (t : Ty) → bindSame scope span u arms = .ok t →
    t = u ∧ ∀ a ∈ arms, Binds Scope.discipline scope (.type a) t
  | [], t, h => by
    rw [bindSame] at h
    exact ⟨(Except.ok.inj h).symm, by simp⟩
  | arm :: arms, t, h => by
    rw [bindSame] at h
    obtain ⟨v, hv, h⟩ := Compiled.bind_eq_ok.1 h
    split at h
    · obtain ⟨rfl, hbinds⟩ := bindSame_binds scope span u arms t h
      refine ⟨rfl, ?_⟩
      rintro a (_ | ⟨_, ha⟩)
      · rename_i heq
        exact heq ▸ TypeExpr.binds scope arm v hv
      · exact hbinds a ha
    · cases h

theorem bindRequired_binds (scope : Scope) (span : Span) (problem : Problem) :
    (type : Option TypeExpr) → (t : Ty) → bindRequired scope span problem type = .ok t →
    ∃ e, type = some e ∧ Binds Scope.discipline scope (.type e) t
  | none, t, h => by
    rw [bindRequired] at h
    cases h
  | some e, t, h => by
    rw [bindRequired] at h
    exact ⟨e, rfl, TypeExpr.binds scope e t h⟩

theorem bindParameters_binds (scope : Scope) (owner : SignatureOwner) :
    (parameters : List Parameter) → (ps : BoundParameters) →
    bindParameters scope owner parameters = .ok ps → BindsParameters scope parameters ps
  | [], ps, h => by
    rw [bindParameters] at h
    obtain rfl := Except.ok.inj h
    exact ⟨rfl, by simp [passed], rfl⟩
  | ⟨span, name, optional, rest, type⟩ :: parameters, ps, h => by
    rw [bindParameters] at h
    split at h
    · rename_i hthis
      have hpassed : passed (⟨span, name, optional, rest, type⟩ :: parameters)
          = passed parameters := by
        simp [passed, bne, hthis]
      obtain ⟨hlen, htypes, hrest⟩ := bindParameters_binds scope owner parameters ps h
      rw [← hpassed] at hlen htypes hrest
      exact ⟨hlen, htypes, hrest⟩
    · rename_i hthis
      obtain ⟨t, ht, h⟩ := Compiled.bind_eq_ok.1 h
      split at h
      · cases h
      · rename_i harray
        obtain ⟨others, hothers, h⟩ := Compiled.bind_eq_ok.1 h
        obtain rfl := Except.ok.inj h
        have hpassed : passed (⟨span, name, optional, rest, type⟩ :: parameters)
            = ⟨span, name, optional, rest, type⟩ :: passed parameters := by
          simp [passed, bne, hthis]
        obtain ⟨e, rfl, hbinds⟩ := bindRequired_binds scope span _ type t ht
        obtain ⟨hlen, htypes, hrest⟩ := bindParameters_binds scope owner parameters others hothers
        refine ⟨by rw [hpassed]; simp [hlen], ?_, ?_⟩
        · rw [hpassed, List.zip_cons_cons]
          rintro p (_ | ⟨_, hp⟩)
          · exact .parameter rfl (by simpa using harray) hbinds
          · exact htypes p hp
        · rw [hpassed]
          cases rest <;> simp [← hrest]

theorem bindMembers_binds (scope : Scope) (seen : List Field) : (members : List Member) →
    (fields : List Field) → bindMembers scope seen members = .ok fields →
    BindsMembers scope seen members fields
  | [], fields, h => by
    rw [bindMembers] at h
    obtain rfl := Except.ok.inj h
    exact ⟨rfl, by simp, by simp, by simp, by simp⟩
  | m :: members, fields, h => by
    rw [bindMembers] at h
    obtain ⟨f, hf, h⟩ := Compiled.bind_eq_ok.1 h
    split at h
    · cases h
    · rename_i hunseen
      obtain ⟨others, hothers, h⟩ := Compiled.bind_eq_ok.1 h
      obtain rfl := Except.ok.inj h
      obtain ⟨hkey, hbinds⟩ := Member.binds scope m f hf
      obtain ⟨hlen, hkeys, hdistinct, hnew, htypes⟩ :=
        bindMembers_binds scope (f :: seen) members others hothers
      refine ⟨by simp [hlen], ?_, ?_, ?_, ?_⟩
      · rw [List.zip_cons_cons]
        rintro p (_ | ⟨_, hp⟩)
        · exact hkey
        · exact hkeys p hp
      · rw [List.map_cons, List.nodup_cons]
        refine ⟨?_, hdistinct⟩
        intro hmem
        obtain ⟨g, hg, heq⟩ := List.mem_map.1 hmem
        exact hnew g hg f (by simp) heq.symm
      · rintro g (_ | ⟨_, hg⟩) g' hg'
        · intro heq
          exact List.find?_eq_none.1 hunseen g' hg' (by simpa using heq)
        · exact hnew g hg g' (by simp [hg'])
      · rw [List.zip_cons_cons]
        rintro p (_ | ⟨_, hp⟩)
        · exact hbinds
        · exact htypes p hp

theorem Member.binds (scope : Scope) : (m : Member) → (f : Field) → m.bind scope = .ok f →
    f.name = m.key ∧ Binds Scope.discipline scope (.member m) f.type
  | .property span readonly key optional type, f, h => by
    rw [Member.bind] at h
    obtain ⟨t, ht, h⟩ := Compiled.bind_eq_ok.1 h
    obtain ⟨hkey, rfl⟩ := bindField_eq_ok h
    obtain ⟨e, rfl, hbinds⟩ := bindRequired_binds scope span _ type t ht
    exact ⟨rfl, .property hkey hbinds⟩
  | .method span key optional typeParameters parameters result, f, h => by
    rw [Member.bind] at h
    obtain ⟨⟨inner, vs⟩, hdecl, h⟩ := Compiled.bind_eq_ok.1 h
    obtain ⟨ps, hps, h⟩ := Compiled.bind_eq_ok.1 h
    obtain ⟨r, hr, h⟩ := Compiled.bind_eq_ok.1 h
    obtain ⟨t, ht, h⟩ := Compiled.bind_eq_ok.1 h
    obtain ⟨hkey, rfl⟩ := bindField_eq_ok h
    obtain ⟨hrest, rfl⟩ := BoundSignature.plainType_eq_ok ht
    obtain ⟨e, rfl, hbinds⟩ := bindRequired_binds inner span _ result r hr
    have hparameters := bindParameters_binds inner (.method key) parameters ps hps
    exact ⟨rfl, .method hkey (hparameters.rest_eq_false hrest) (hparameters.signature hdecl hbinds)⟩
  | .call .., _, h | .construct .., _, h | .index .., _, h => by
    rw [Member.bind] at h
    cases h

end

theorem bindFunction_binds {scope : Scope} {span : Span} {owner : SignatureOwner}
    {typeParameters : Option (List TypeParameter)} {parameters : List Parameter}
    {result : Option TypeExpr} {s : BoundSignature}
    (h : bindFunction scope span owner typeParameters parameters result = .ok s) :
    ∃ e, result = some e ∧
      Binds Scope.discipline scope (.signature (typeParameters.getD []) parameters e) s.type := by
  unfold bindFunction at h
  obtain ⟨⟨inner, vs⟩, hdecl, h⟩ := Compiled.bind_eq_ok.1 h
  obtain ⟨ps, hps, h⟩ := Compiled.bind_eq_ok.1 h
  obtain ⟨r, hr, h⟩ := Compiled.bind_eq_ok.1 h
  obtain rfl := Except.ok.inj h
  obtain ⟨e, rfl, hbinds⟩ := bindRequired_binds inner span _ result r hr
  exact ⟨e, rfl, (bindParameters_binds inner owner parameters ps hps).signature hdecl hbinds⟩

end Ambient
