import Ambient.Proofs.Scopes
/-!
# What binding needs of a scope

A type is bound by looking up names, by choosing type variables that are not taken, and by asking
which interface is around. So in two scopes that agree on the names a type refers to, on the type
variables and on the interface around, the type has the same binding or the same error
(`TypeExpr.bind_congr`). References that a type parameter captures do not count. The same holds of
whole declarations, up to the module that an external is labelled with.
-/

namespace Ambient

/-! ## The names that are looked up -/

/-- The names that are not names of type parameters. -/
def without (ps : List TypeParameter) (names : List String) : List String :=
  names.filter fun n => ps.all (·.name != n)

theorem mem_without {ps : List TypeParameter} {names : List String} {n : String} :
    n ∈ without ps names ↔ n ∈ names ∧ ∀ p ∈ ps, p.name ≠ n := by
  simp [without]

mutual

/-- The names of references in a type that are looked up where the type stands: those that no type
parameter inside the type captures. A type without binding looks up nothing. -/
def TypeExpr.needs : TypeExpr → List String
  | .reference _ (.identifier name) arguments => name :: needsOfArguments arguments
  | .array _ _ element => element.needs
  | .tuple _ _ elements => needsOfTypes elements
  | .union _ arms => needsOfTypes arms
  | .function _ typeParameters parameters result =>
    without (typeParameters.getD []) (needsOfParameters parameters ++ result.needs)
  | .object _ members => needsOfMembers members
  | .parenthesized _ inner => inner.needs
  | .reference _ (.qualified ..) _ | .literal .. | .intersection .. | .constructor ..
  | .indexedAccess .. | .query .. | .keyOf .. | .this _ => []

/-- The names that types look up. -/
def needsOfTypes : List TypeExpr → List String
  | [] => []
  | t :: ts => t.needs ++ needsOfTypes ts

/-- The names that type arguments look up. -/
def needsOfArguments : Option (List TypeExpr) → List String
  | none => []
  | some ts => needsOfTypes ts

/-- The names that a type looks up, if it is there. -/
def needsOfType? : Option TypeExpr → List String
  | none => []
  | some t => t.needs

/-- The names that parameters look up. The type of a receiver is not bound. -/
def needsOfParameters : List Parameter → List String
  | [] => []
  | ⟨_, name, _, _, type⟩ :: ps =>
    if name == "this" then needsOfParameters ps else needsOfType? type ++ needsOfParameters ps

/-- The names that a member looks up. -/
def Member.needs : Member → List String
  | .property _ _ _ _ type => needsOfType? type
  | .method _ _ _ typeParameters parameters result =>
    without (typeParameters.getD []) (needsOfParameters parameters ++ needsOfType? result)
  | .call .. | .construct .. | .index .. => []

/-- The names that members look up. -/
def needsOfMembers : List Member → List String
  | [] => []
  | m :: ms => m.needs ++ needsOfMembers ms

end

theorem mem_needsOfTypes {ts : List TypeExpr} {n : String} :
    n ∈ needsOfTypes ts ↔ ∃ t ∈ ts, n ∈ t.needs := by
  induction ts with
  | nil => simp [needsOfTypes]
  | cons t ts ih => simp [needsOfTypes, ih]

/-! ## Scopes that agree -/

/-- The names mean the same in both scopes, which have the same type variables and the same
interface around them. -/
structure Scope.AgreeOn (names : List String) (s s' : Scope) : Prop where
  lookup : ∀ n ∈ names, s.lookup n = s'.lookup n
  typeVariables : s.typeVariables = s'.typeVariables
  interfaceName : s.interfaceName = s'.interfaceName

namespace Scope.AgreeOn

variable {names others : List String} {s s' : Scope}

theorem mono (h : s.AgreeOn names s') (hsub : ∀ n ∈ others, n ∈ names) : s.AgreeOn others s' :=
  ⟨fun n hn => h.lookup n (hsub n hn), h.typeVariables, h.interfaceName⟩

theorem left (h : s.AgreeOn (names ++ others) s') : s.AgreeOn names s' :=
  h.mono fun _ hn => List.mem_append_left _ hn

theorem right (h : s.AgreeOn (names ++ others) s') : s.AgreeOn others s' :=
  h.mono fun _ hn => List.mem_append_right _ hn

/-- Behind the same entry the name of that entry means the same too. -/
theorem push (entry : Entry) (h : s.AgreeOn (names.filter (entry.name != ·)) s') :
    (s.push entry).AgreeOn names (s'.push entry) where
  lookup n hn := by
    rw [lookup_push, lookup_push]
    split
    · rfl
    · rename_i hne
      exact h.lookup n (List.mem_filter.2 ⟨hn, by simpa using hne⟩)
  typeVariables := by
    unfold Scope.typeVariables Scope.push
    simp only [List.filterMap_cons]
    have htail := h.typeVariables
    unfold Scope.typeVariables at htail
    rw [htail]
  interfaceName := h.interfaceName

theorem inInterface (h : s.AgreeOn names s') (name : String) :
    (s.inInterface name).AgreeOn names (s'.inInterface name) :=
  ⟨h.lookup, h.typeVariables, rfl⟩

theorem freshVariable (h : s.AgreeOn names s') (name : String) :
    s.freshVariable name = s'.freshVariable name := by
  unfold Scope.freshVariable takenIdents
  rw [h.typeVariables]

theorem hiddenBy (h : s.AgreeOn names s') (entry : Entry) :
    resolve.hiddenBy s entry = resolve.hiddenBy s' entry := by
  cases entry <;> simp only [resolve.hiddenBy, h.interfaceName]

theorem target (h : s.AgreeOn names s') (arguments : List Ty) (entry : Entry) :
    s.target arguments entry = s'.target arguments entry := by
  cases entry <;> simp only [Scope.target, h.interfaceName]

theorem resolve {name : String} (h : s.AgreeOn (name :: names) s') (span : Span) (count : Nat) :
    s.resolve span (.identifier name) count = s'.resolve span (.identifier name) count := by
  unfold Scope.resolve
  simp only [h.lookup name (.head _), h.hiddenBy]

end Scope.AgreeOn

/-- Both outcomes are values that are related, or both are the same error. -/
inductive Compiled.Both {α β : Type} (R : α → β → Prop) : Compiled α → Compiled β → Prop
  | ok {a b} : R a b → Both R (.ok a) (.ok b)
  | error {e} : Both R (.error e) (.error e)

namespace Compiled.Both

variable {α β γ δ : Type} {R : α → β → Prop} {x : Compiled α} {y : Compiled β}

theorem bind {S : γ → δ → Prop} {f : α → Compiled γ} {g : β → Compiled δ} (h : Both R x y)
    (hfg : ∀ a b, R a b → Both S (f a) (g b)) : Both S (x >>= f) (y >>= g) := by
  cases h with
  | ok hab => exact hfg _ _ hab
  | error => exact .error

theorem bind_eq {f : α → Compiled γ} {g : β → Compiled γ} (h : Both R x y)
    (hfg : ∀ a b, R a b → f a = g b) : (x >>= f) = (y >>= g) := by
  cases h with
  | ok hab => exact hfg _ _ hab
  | error => rfl

end Compiled.Both

/-- The type parameters are written alike, and what they capture means the same inside. -/
theorem Scope.AgreeOn.declareTypeParameters {names : List String} {s s' : Scope}
    {ps : List TypeParameter} (h : s.AgreeOn (without ps names) s') :
    Compiled.Both (fun x y => x.1.AgreeOn names y.1 ∧ x.2 = y.2) (s.declareTypeParameters ps)
      (s'.declareTypeParameters ps) := by
  induction ps generalizing s s' with
  | nil => exact .ok ⟨h.mono fun n hn => mem_without.2 ⟨hn, by simp⟩, rfl⟩
  | cons p ps ih =>
    have hnext (printed : String) : (s.push (.typeVariable p.name printed)).AgreeOn
        (without ps names) (s'.push (.typeVariable p.name printed)) := by
      refine .push _ (h.mono fun n hn => ?_)
      obtain ⟨hn, hne⟩ := List.mem_filter.1 hn
      obtain ⟨hn, hps⟩ := mem_without.1 hn
      exact mem_without.2 ⟨hn, List.forall_mem_cons.2 ⟨by simpa [Entry.name] using hne, hps⟩⟩
    unfold Scope.declareTypeParameters
    rw [← h.freshVariable]
    split
    · refine (ih (hnext _)).bind ?_
      rintro ⟨inner, others⟩ ⟨inner', _⟩ ⟨hinner, rfl⟩
      exact .ok ⟨hinner, rfl⟩
    · exact .error

/-! ## Types -/

theorem Scope.AgreeOn.isNullish {s s' : Scope} {t : TypeExpr} (h : s.AgreeOn t.needs s') :
    s.isNullish t = s'.isNullish t := by
  unfold Scope.isNullish
  split
  · rename_i name
    rw [h.lookup name (by simp [TypeExpr.needs])]
  · rfl

theorem Scope.AgreeOn.isNullish_arms {s s' : Scope} {arms : List TypeExpr}
    (h : s.AgreeOn (needsOfTypes arms) s') : ∀ arm ∈ arms, s.isNullish arm = s'.isNullish arm :=
  fun arm harm => Scope.AgreeOn.isNullish
    (h.mono fun _ hn => mem_needsOfTypes.2 ⟨arm, harm, hn⟩)

mutual

/-- A type is bound alike in scopes that agree on what it needs. -/
theorem TypeExpr.bind_congr {s s' : Scope} :
    (e : TypeExpr) → s.AgreeOn e.needs s' → e.bind s = e.bind s'
  | .reference span (.identifier name) arguments, h => by
    rw [TypeExpr.needs] at h
    have harguments := bindArguments_congr arguments
      (h.mono fun n hn => List.mem_cons_of_mem _ hn)
    rw [TypeExpr.bind, TypeExpr.bind, h.resolve, harguments]
    simp only [h.target]
  | .reference span (.qualified ..) arguments, _ => by
    rw [TypeExpr.bind, TypeExpr.bind]
    rfl
  | .literal span value, _ => by
    cases value <;> rw [TypeExpr.bind, TypeExpr.bind]
  | .array span readonly element, h => by
    rw [TypeExpr.needs] at h
    rw [TypeExpr.bind, TypeExpr.bind, TypeExpr.bind_congr element h]
  | .tuple span readonly elements, h => by
    rw [TypeExpr.needs] at h
    rw [TypeExpr.bind, TypeExpr.bind, bindTypes_congr elements h]
  | .union span arms, h => by
    rw [TypeExpr.needs] at h
    -- the same arms are nullish, so both scopes take the same branch
    have hany : arms.any s.isNullish = arms.any s'.isNullish := by
      rw [Bool.eq_iff_iff, List.any_eq_true, List.any_eq_true]
      exact exists_congr fun arm => and_congr_right fun harm => by rw [h.isNullish_arms arm harm]
    have hfilter : arms.filter (!s.isNullish ·) = arms.filter (!s'.isNullish ·) :=
      List.filter_congr fun arm harm => by rw [h.isNullish_arms arm harm]
    rw [TypeExpr.bind, TypeExpr.bind, hany, hfilter, bindProper_congr span arms h,
      bindAlike_congr span arms h]
  | .function span typeParameters parameters result, h => by
    rw [TypeExpr.needs] at h
    rw [TypeExpr.bind, TypeExpr.bind]
    refine h.declareTypeParameters.bind_eq ?_
    rintro ⟨inner, quantified⟩ ⟨inner', _⟩ ⟨hinner, rfl⟩
    dsimp only at hinner ⊢
    rw [bindParameters_congr _ parameters hinner.left, TypeExpr.bind_congr result hinner.right]
  | .object span members, h => by
    rw [TypeExpr.needs] at h
    rw [TypeExpr.bind, TypeExpr.bind, bindMembers_congr [] members h]
  | .parenthesized span inner, h => by
    rw [TypeExpr.needs] at h
    rw [TypeExpr.bind, TypeExpr.bind]
    exact TypeExpr.bind_congr inner h
  | .intersection .., _ | .constructor .., _ | .indexedAccess .., _ | .query .., _ | .keyOf .., _
  | .this _, _ => by
    rw [TypeExpr.bind, TypeExpr.bind]

theorem bindTypes_congr {s s' : Scope} : (ts : List TypeExpr) →
    s.AgreeOn (needsOfTypes ts) s' → bindTypes s ts = bindTypes s' ts
  | [], _ => by rw [bindTypes, bindTypes]
  | t :: ts, h => by
    rw [needsOfTypes] at h
    rw [bindTypes, bindTypes, TypeExpr.bind_congr t h.left, bindTypes_congr ts h.right]

theorem bindArguments_congr {s s' : Scope} : (arguments : Option (List TypeExpr)) →
    s.AgreeOn (needsOfArguments arguments) s' →
    bindArguments s arguments = bindArguments s' arguments
  | none, _ => by rw [bindArguments, bindArguments]
  | some ts, h => by
    rw [needsOfArguments] at h
    rw [bindArguments, bindArguments]
    exact bindTypes_congr ts h

theorem bindProper_congr {s s' : Scope} (span : Span) : (arms : List TypeExpr) →
    s.AgreeOn (needsOfTypes arms) s' → bindProper s span arms = bindProper s' span arms
  | [], _ => by rw [bindProper, bindProper]
  | t :: ts, h => by
    rw [needsOfTypes] at h
    rw [bindProper, bindProper, h.left.isNullish, bindProper_congr span ts h.right,
      TypeExpr.bind_congr t h.left]

theorem bindAlike_congr {s s' : Scope} (span : Span) : (arms : List TypeExpr) →
    s.AgreeOn (needsOfTypes arms) s' → bindAlike s span arms = bindAlike s' span arms
  | [], _ => by rw [bindAlike, bindAlike]
  | t :: ts, h => by
    rw [needsOfTypes] at h
    rw [bindAlike, bindAlike, TypeExpr.bind_congr t h.left]
    simp only [fun type => bindSame_congr span type ts h.right]

theorem bindSame_congr {s s' : Scope} (span : Span) (type : Ty) : (arms : List TypeExpr) →
    s.AgreeOn (needsOfTypes arms) s' → bindSame s span type arms = bindSame s' span type arms
  | [], _ => by rw [bindSame, bindSame]
  | t :: ts, h => by
    rw [needsOfTypes] at h
    rw [bindSame, bindSame, TypeExpr.bind_congr t h.left, bindSame_congr span type ts h.right]

theorem bindRequired_congr {s s' : Scope} (span : Span) (problem : Problem) :
    (type : Option TypeExpr) → s.AgreeOn (needsOfType? type) s' →
    bindRequired s span problem type = bindRequired s' span problem type
  | none, _ => by rw [bindRequired, bindRequired]
  | some t, h => by
    rw [needsOfType?] at h
    rw [bindRequired, bindRequired]
    exact TypeExpr.bind_congr t h

theorem bindParameters_congr {s s' : Scope} (owner : SignatureOwner) : (ps : List Parameter) →
    s.AgreeOn (needsOfParameters ps) s' → bindParameters s owner ps = bindParameters s' owner ps
  | [], _ => by rw [bindParameters, bindParameters]
  | ⟨span, name, optional, rest, type⟩ :: ps, h => by
    rw [needsOfParameters] at h
    rw [bindParameters, bindParameters]
    by_cases hthis : (name == "this") = true
    · rw [if_pos hthis] at h
      rw [if_pos hthis, if_pos hthis]
      exact bindParameters_congr owner ps h
    · rw [if_neg hthis] at h
      rw [if_neg hthis, if_neg hthis, bindRequired_congr span _ type h.left,
        bindParameters_congr owner ps h.right]

theorem bindMembers_congr {s s' : Scope} (seen : List Field) : (ms : List Member) →
    s.AgreeOn (needsOfMembers ms) s' → bindMembers s seen ms = bindMembers s' seen ms
  | [], _ => by rw [bindMembers, bindMembers]
  | m :: ms, h => by
    rw [needsOfMembers] at h
    rw [bindMembers, bindMembers, Member.bind_congr m h.left]
    simp only [fun seen => bindMembers_congr seen ms h.right]

theorem Member.bind_congr {s s' : Scope} :
    (m : Member) → s.AgreeOn m.needs s' → m.bind s = m.bind s'
  | .property span readonly key optional type, h => by
    rw [Member.needs] at h
    rw [Member.bind, Member.bind, bindRequired_congr span _ type h]
  | .method span key optional typeParameters parameters result, h => by
    rw [Member.needs] at h
    rw [Member.bind, Member.bind]
    refine h.declareTypeParameters.bind_eq ?_
    rintro ⟨inner, quantified⟩ ⟨inner', _⟩ ⟨hinner, rfl⟩
    dsimp only at hinner ⊢
    rw [bindParameters_congr _ parameters hinner.left,
      bindRequired_congr span _ result hinner.right]
  | .call .., _ | .construct .., _ | .index .., _ => by
    rw [Member.bind, Member.bind]

end

/-! ## Declarations -/

/-- The names that the type of a variable looks up. -/
def Variable.needs (d : Variable) : List String := needsOfType? d.type

/-- The names that the signature of a function looks up. -/
def Function.needs (d : Function) : List String :=
  without (d.typeParameters.getD []) (needsOfParameters d.parameters ++ needsOfType? d.result)

/-- The names that the body of an alias looks up, its own among them. -/
def TypeAlias.needs (d : TypeAlias) : List String :=
  without (d.typeParameters.getD []) d.body.needs

/-- The names that the body of an interface looks up. Its own name means the interface. -/
def Interface.needs (d : Interface) : List String :=
  without (d.typeParameters.getD []) ((needsOfMembers d.members).filter (d.name != ·))

theorem bindFunction_congr {s s' : Scope} (span : Span) (owner : SignatureOwner)
    {typeParameters : Option (List TypeParameter)} {parameters : List Parameter}
    {result : Option TypeExpr}
    (h : s.AgreeOn (without (typeParameters.getD [])
      (needsOfParameters parameters ++ needsOfType? result)) s') :
    bindFunction s span owner typeParameters parameters result
      = bindFunction s' span owner typeParameters parameters result := by
  unfold bindFunction
  refine h.declareTypeParameters.bind_eq ?_
  rintro ⟨inner, quantified⟩ ⟨inner', _⟩ ⟨hinner, rfl⟩
  dsimp only at hinner ⊢
  rw [bindParameters_congr _ parameters hinner.left, bindRequired_congr span _ result hinner.right]

theorem TypeAlias.compile_congr {s s' : Scope} {d : TypeAlias} (h : s.AgreeOn d.needs s') :
    d.compile s = d.compile s' := by
  unfold TypeAlias.compile
  split
  · refine h.declareTypeParameters.bind_eq ?_
    rintro ⟨inner, parameters⟩ ⟨inner', _⟩ ⟨hinner, rfl⟩
    dsimp only at hinner ⊢
    rw [d.body.bind_congr hinner]
  · rfl

theorem Interface.compile_congr {s s' : Scope} {d : Interface} (h : s.AgreeOn d.needs s') :
    d.compile s = d.compile s' := by
  unfold Interface.compile
  split
  · split
    · rfl
    · refine h.declareTypeParameters.bind_eq ?_
      rintro ⟨inner, parameters⟩ ⟨inner', _⟩ ⟨hinner, rfl⟩
      have hbody := (Scope.AgreeOn.push (.interface d.name parameters.length) hinner).inInterface
        d.name
      dsimp only at hbody ⊢
      rw [bindMembers_congr [] d.members hbody]
  · rfl

end Ambient
