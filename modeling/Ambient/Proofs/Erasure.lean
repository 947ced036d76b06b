import Ambient.Compile.Statement
/-!
# What spans are for

`erase` puts every span of a syntax tree to the start of the text, so that two trees with the same
erasure differ in spans only. The compiler reads spans for one purpose, to say where an error is:
trees with the same erasure are compiled to the same items, or fail for the same reason
(`compileStatements_alike`).
-/

namespace Ambient

/-! ## Erasing spans -/

/-- The span that stands for all spans. -/
def Span.nowhere : Span := ⟨0, 0⟩

mutual

/-- The type without its spans. -/
def TypeExpr.erase : TypeExpr → TypeExpr
  | .reference _ name arguments => .reference .nowhere name (eraseArguments arguments)
  | .literal _ value => .literal .nowhere value
  | .array _ readonly element => .array .nowhere readonly element.erase
  | .tuple _ readonly elements => .tuple .nowhere readonly (eraseTypes elements)
  | .union _ arms => .union .nowhere (eraseTypes arms)
  | .intersection _ arms => .intersection .nowhere (eraseTypes arms)
  | .function _ typeParameters parameters result =>
    .function .nowhere (eraseTypeParameters? typeParameters) (eraseParameters parameters)
      result.erase
  | .constructor _ typeParameters parameters result =>
    .constructor .nowhere (eraseTypeParameters? typeParameters) (eraseParameters parameters)
      result.erase
  | .object _ members => .object .nowhere (eraseMembers members)
  | .parenthesized _ inner => .parenthesized .nowhere inner.erase
  | .indexedAccess _ object index => .indexedAccess .nowhere object.erase index.erase
  | .query _ name => .query .nowhere name
  | .keyOf _ operand => .keyOf .nowhere operand.erase
  | .this _ => .this .nowhere

/-- Types without their spans. -/
def eraseTypes : List TypeExpr → List TypeExpr
  | [] => []
  | t :: ts => t.erase :: eraseTypes ts

/-- A type that may be absent, without its spans. -/
def eraseType? : Option TypeExpr → Option TypeExpr
  | none => none
  | some t => some t.erase

/-- Type arguments without their spans. -/
def eraseArguments : Option (List TypeExpr) → Option (List TypeExpr)
  | none => none
  | some ts => some (eraseTypes ts)

/-- The type parameter without its spans. -/
def TypeParameter.erase : TypeParameter → TypeParameter
  | ⟨_, name, constraint, fallback⟩ =>
    ⟨.nowhere, name, eraseType? constraint, eraseType? fallback⟩

/-- Type parameters without their spans. -/
def eraseTypeParameters : List TypeParameter → List TypeParameter
  | [] => []
  | p :: ps => p.erase :: eraseTypeParameters ps

/-- Type parameters that may be absent, without their spans. -/
def eraseTypeParameters? : Option (List TypeParameter) → Option (List TypeParameter)
  | none => none
  | some ps => some (eraseTypeParameters ps)

/-- The parameter without its spans. -/
def Parameter.erase : Parameter → Parameter
  | ⟨_, name, optional, rest, type⟩ => ⟨.nowhere, name, optional, rest, eraseType? type⟩

/-- Parameters without their spans. -/
def eraseParameters : List Parameter → List Parameter
  | [] => []
  | p :: ps => p.erase :: eraseParameters ps

/-- The member without its spans. -/
def Member.erase : Member → Member
  | .property _ readonly key optional type =>
    .property .nowhere readonly key optional (eraseType? type)
  | .method _ key optional typeParameters parameters result =>
    .method .nowhere key optional (eraseTypeParameters? typeParameters)
      (eraseParameters parameters) (eraseType? result)
  | .call _ typeParameters parameters result =>
    .call .nowhere (eraseTypeParameters? typeParameters) (eraseParameters parameters)
      (eraseType? result)
  | .construct _ typeParameters parameters result =>
    .construct .nowhere (eraseTypeParameters? typeParameters) (eraseParameters parameters)
      (eraseType? result)
  | .index _ readonly parameterName parameterType type =>
    .index .nowhere readonly parameterName parameterType.erase type.erase

/-- Members without their spans. -/
def eraseMembers : List Member → List Member
  | [] => []
  | m :: ms => m.erase :: eraseMembers ms

end

/-- The variable without its spans. -/
def Variable.erase (d : Variable) : Variable :=
  { d with span := .nowhere, nameSpan := .nowhere, type := eraseType? d.type }

/-- The function without its spans. -/
def Function.erase (d : Function) : Function :=
  { d with
    span := .nowhere
    nameSpan := .nowhere
    typeParameters := eraseTypeParameters? d.typeParameters
    parameters := eraseParameters d.parameters
    result := eraseType? d.result }

/-- The type alias without its spans. -/
def TypeAlias.erase (d : TypeAlias) : TypeAlias :=
  { d with
    span := .nowhere
    nameSpan := .nowhere
    typeParameters := eraseTypeParameters? d.typeParameters
    body := d.body.erase }

/-- The interface without its spans. -/
def Interface.erase (d : Interface) : Interface :=
  { d with
    span := .nowhere
    nameSpan := .nowhere
    typeParameters := eraseTypeParameters? d.typeParameters
    bases := eraseTypes d.bases
    members := eraseMembers d.members }

/-- The class without its spans. -/
def Class.erase (d : Class) : Class :=
  { d with
    span := .nowhere
    typeParameters := eraseTypeParameters? d.typeParameters
    base := eraseType? d.base
    interfaces := eraseTypes d.interfaces
    members := eraseMembers d.members }

/-- The member of an enumeration without its span. -/
def EnumMember.erase (m : EnumMember) : EnumMember := { m with span := .nowhere }

/-- The enumeration without its spans. -/
def Enum.erase (d : Enum) : Enum :=
  { d with span := .nowhere, members := d.members.map EnumMember.erase }

/-- The listed name without its span. -/
def ListedName.erase (n : ListedName) : ListedName := { n with span := .nowhere }

/-- The export list without its spans. -/
def ExportList.erase (d : ExportList) : ExportList :=
  { d with span := .nowhere, names := d.names.map ListedName.erase }

/-- The import without its spans. -/
def Import.erase (d : Import) : Import :=
  { d with span := .nowhere, names := d.names.map ListedName.erase }

mutual

/-- The declaration without its spans. -/
def Declaration.erase : Declaration → Declaration
  | .ofModule _ _ name body => .ofModule .nowhere .nowhere name (eraseStatements? body)
  | .ofVariable d => .ofVariable d.erase
  | .ofFunction d => .ofFunction d.erase
  | .ofTypeAlias d => .ofTypeAlias d.erase
  | .ofInterface d => .ofInterface d.erase
  | .ofClass d => .ofClass d.erase
  | .ofEnum d => .ofEnum d.erase
  | .ofNamespace _ exported name body => .ofNamespace .nowhere exported name (eraseStatements body)
  | .ofGlobal _ body => .ofGlobal .nowhere (eraseStatements body)
  | .empty _ => .empty .nowhere
  | .exportAsNamespace _ name => .exportAsNamespace .nowhere name
  | .exportAssignment _ name => .exportAssignment .nowhere name
  | .exportList d => .exportList d.erase
  | .importing d => .importing d.erase

/-- The statement without its spans. -/
def Statement.erase : Statement → Statement
  | ⟨_, declaration⟩ => ⟨.nowhere, declaration.erase⟩

/-- Statements without their spans. -/
def eraseStatements : List Statement → List Statement
  | [] => []
  | s :: ss => s.erase :: eraseStatements ss

/-- A body that may be absent, without its spans. -/
def eraseStatements? : Option (List Statement) → Option (List Statement)
  | none => none
  | some ss => some (eraseStatements ss)

end

/-- The file without its spans. -/
def File.erase (file : File) : File := ⟨.nowhere, eraseStatements file.body⟩

theorem eraseTypes_eq_map (ts : List TypeExpr) : eraseTypes ts = ts.map TypeExpr.erase := by
  induction ts with
  | nil => rfl
  | cons t ts ih => rw [eraseTypes, ih, List.map_cons]

theorem eraseTypeParameters_eq_map (ps : List TypeParameter) :
    eraseTypeParameters ps = ps.map TypeParameter.erase := by
  induction ps with
  | nil => rfl
  | cons p ps ih => rw [eraseTypeParameters, ih, List.map_cons]

theorem eraseParameters_eq_map (ps : List Parameter) :
    eraseParameters ps = ps.map Parameter.erase := by
  induction ps with
  | nil => rfl
  | cons p ps ih => rw [eraseParameters, ih, List.map_cons]

theorem eraseMembers_eq_map (ms : List Member) : eraseMembers ms = ms.map Member.erase := by
  induction ms with
  | nil => rfl
  | cons m ms ih => rw [eraseMembers, ih, List.map_cons]

theorem eraseStatements_eq_map (ss : List Statement) :
    eraseStatements ss = ss.map Statement.erase := by
  induction ss with
  | nil => rfl
  | cons s ss ih => rw [eraseStatements, ih, List.map_cons]

/-! ## Outcomes that differ in spans -/

namespace Compiled

variable {α β : Type}

/-- Both outcomes are values, which are related, or both are the same problem, wherever each of
them is placed. -/
inductive Alike (R : α → α → Prop) : Compiled α → Compiled α → Prop
  | ok {a b} : R a b → Alike R (.ok a) (.ok b)
  | error {problem span span'} : Alike R (.error ⟨problem, span⟩) (.error ⟨problem, span'⟩)

theorem Alike.bind {R : α → α → Prop} {S : β → β → Prop} {x y : Compiled α}
    {f g : α → Compiled β} (h : Alike R x y) (hfg : ∀ a b, R a b → Alike S (f a) (g b)) :
    Alike S (x >>= f) (y >>= g) := by
  cases h with
  | ok hab => exact hfg _ _ hab
  | error => exact .error

/-- Binding a value that does not depend on spans. -/
theorem Alike.bind_eq {S : β → β → Prop} {x y : Compiled α} {f g : α → Compiled β}
    (h : Alike Eq x y) (hfg : ∀ a, Alike S (f a) (g a)) : Alike S (x >>= f) (y >>= g) := by
  apply h.bind
  rintro a b rfl
  exact hfg a

theorem Alike.trans_symm {x y z : Compiled α} (h : Alike Eq x z) (h' : Alike Eq y z) :
    Alike Eq x y := by
  cases h with
  | ok hab =>
    cases h' with
    | ok hcb => exact .ok (hab.trans hcb.symm)
  | error =>
    cases h' with
    | error => exact .error

end Compiled

open Compiled (Alike)

/-! ## Types -/

theorem Scope.isNullish_erase (scope : Scope) (e : TypeExpr) :
    scope.isNullish e.erase = scope.isNullish e := by
  cases e with
  | reference span name arguments => cases name <;> cases arguments <;> rfl
  | _ => rfl

theorem Scope.resolve_alike (scope : Scope) (span span' : Span) (name : EntityName) (count : Nat) :
    Alike Eq (scope.resolve span name count) (scope.resolve span' name count) := by
  unfold Scope.resolve
  split
  · exact .error
  · split
    · exact .error
    · split
      · exact .error
      · split
        · exact .ok rfl
        · exact .error

theorem Scope.declareTypeParameters_alike (scope : Scope) (ps : List TypeParameter) :
    Alike Eq (scope.declareTypeParameters ps)
      (scope.declareTypeParameters (eraseTypeParameters ps)) := by
  induction ps generalizing scope with
  | nil => exact .ok rfl
  | cons p ps ih =>
    obtain ⟨span, name, constraint, fallback⟩ := p
    simp only [eraseTypeParameters, TypeParameter.erase, Scope.declareTypeParameters]
    split
    · exact (ih _).bind_eq fun _ => .ok rfl
    · exact .error

theorem Scope.declareTypeParameters?_alike (scope : Scope) (ps : Option (List TypeParameter)) :
    Alike Eq (scope.declareTypeParameters? ps)
      (scope.declareTypeParameters? (eraseTypeParameters? ps)) := by
  cases ps with
  | none => exact .ok rfl
  | some ps => exact scope.declareTypeParameters_alike ps

theorem length_getD_eraseArguments (arguments : Option (List TypeExpr)) :
    ((eraseArguments arguments).getD []).length = (arguments.getD []).length := by
  cases arguments with
  | none => rfl
  | some ts => simp [eraseArguments, eraseTypes_eq_map]

/-- The same parameters, and a rest parameter in both or in none. -/
def BoundParameters.Agrees (ps qs : BoundParameters) : Prop :=
  ps.types = qs.types ∧ ps.rest.isSome = qs.rest.isSome

/-- The same signature, with a rest parameter in both or in none. -/
def BoundSignature.Agrees (s u : BoundSignature) : Prop :=
  s.type = u.type ∧ s.rest.isSome = u.rest.isSome

theorem BoundParameters.Agrees.make {ps qs : BoundParameters} (h : ps.Agrees qs)
    (quantified : List String) (result : Ty) :
    (BoundSignature.make quantified ps result).Agrees (.make quantified qs result) := by
  obtain ⟨htypes, hrest⟩ := h
  exact ⟨by simp only [BoundSignature.make, BoundSignature.type, htypes], hrest⟩

theorem BoundSignature.Agrees.plainType {s u : BoundSignature} (h : s.Agrees u) :
    Alike Eq s.plainType u.plainType := by
  obtain ⟨htype, hrest⟩ := h
  unfold BoundSignature.plainType
  cases hs : s.rest with
  | none =>
    obtain hu : u.rest = none := by simpa [hs] using hrest
    rw [hu]
    exact .ok htype
  | some span =>
    obtain ⟨span', hu⟩ : ∃ span', u.rest = some span' := by
      simpa [hs, Option.isSome_iff_exists] using hrest.symm
    rw [hu]
    exact .error

theorem bindField_alike (span span' : Span) (key : String) (optional : Bool) (type : Ty) :
    Alike Eq (bindField span key optional type) (bindField span' key optional type) := by
  unfold bindField
  split
  · exact .error
  · exact .ok rfl

mutual

/-- A type and its erasure are bound alike. -/
theorem TypeExpr.bind_alike (scope : Scope) :
    (e : TypeExpr) → Alike Eq (e.bind scope) (e.erase.bind scope)
  | .reference span name arguments => by
    rw [TypeExpr.erase, TypeExpr.bind, TypeExpr.bind, length_getD_eraseArguments]
    refine (scope.resolve_alike span .nowhere name _).bind_eq fun entry => ?_
    exact (bindArguments_alike scope arguments).bind_eq fun _ => .ok rfl
  | .literal span value => by
    cases value <;> exact .ok rfl
  | .array span readonly element => by
    rw [TypeExpr.erase, TypeExpr.bind, TypeExpr.bind]
    exact (TypeExpr.bind_alike scope element).bind_eq fun _ => .ok rfl
  | .tuple span readonly elements => by
    rw [TypeExpr.erase, TypeExpr.bind, TypeExpr.bind, eraseTypes_eq_map, List.length_map,
      ← eraseTypes_eq_map]
    split
    · exact .error
    · exact (bindTypes_alike scope elements).bind_eq fun _ => .ok rfl
  | .union span arms => by
    -- which arms are nullish does not depend on spans, so both unions take the same branch
    have hany : (eraseTypes arms).any scope.isNullish = arms.any scope.isNullish := by
      rw [eraseTypes_eq_map, List.any_map]
      congr 1
      funext e
      exact scope.isNullish_erase e
    have hlength : ((eraseTypes arms).filter (!scope.isNullish ·)).length
        = (arms.filter (!scope.isNullish ·)).length := by
      rw [eraseTypes_eq_map, List.filter_map, List.length_map]
      congr 2
      funext e
      simp [scope.isNullish_erase e]
    rw [TypeExpr.erase, TypeExpr.bind, TypeExpr.bind, hany, hlength]
    split
    · split
      · exact (bindProper_alike scope span .nowhere arms).bind_eq fun _ => .ok rfl
      · exact .error
    · exact bindAlike_alike scope span .nowhere arms
  | .function span typeParameters parameters result => by
    rw [TypeExpr.erase, TypeExpr.bind, TypeExpr.bind]
    refine (scope.declareTypeParameters?_alike typeParameters).bind_eq fun (inner, quantified) => ?_
    refine (bindParameters_alike inner .functionType parameters).bind fun ps qs hps => ?_
    refine (TypeExpr.bind_alike inner result).bind_eq fun type => ?_
    exact (hps.make quantified type).plainType
  | .object span members => by
    rw [TypeExpr.erase, TypeExpr.bind, TypeExpr.bind]
    exact (bindMembers_alike scope [] members).bind_eq fun _ => .ok rfl
  | .parenthesized span inner => by
    rw [TypeExpr.erase, TypeExpr.bind, TypeExpr.bind]
    exact TypeExpr.bind_alike scope inner
  | .intersection .. | .constructor .. | .indexedAccess .. | .query .. | .keyOf .. | .this _ => by
    rw [TypeExpr.erase, TypeExpr.bind, TypeExpr.bind]
    exact .error

theorem bindTypes_alike (scope : Scope) :
    (es : List TypeExpr) → Alike Eq (bindTypes scope es) (bindTypes scope (eraseTypes es))
  | [] => .ok rfl
  | e :: es => by
    rw [eraseTypes, bindTypes, bindTypes]
    refine (TypeExpr.bind_alike scope e).bind_eq fun type => ?_
    exact (bindTypes_alike scope es).bind_eq fun _ => .ok rfl

theorem bindArguments_alike (scope : Scope) : (arguments : Option (List TypeExpr)) →
    Alike Eq (bindArguments scope arguments) (bindArguments scope (eraseArguments arguments))
  | none => .ok rfl
  | some es => bindTypes_alike scope es

theorem bindProper_alike (scope : Scope) (span span' : Span) : (arms : List TypeExpr) →
    Alike Eq (bindProper scope span arms) (bindProper scope span' (eraseTypes arms))
  | [] => .error
  | e :: es => by
    rw [eraseTypes, bindProper, bindProper, scope.isNullish_erase]
    split
    · exact bindProper_alike scope span span' es
    · exact TypeExpr.bind_alike scope e

theorem bindAlike_alike (scope : Scope) (span span' : Span) : (arms : List TypeExpr) →
    Alike Eq (bindAlike scope span arms) (bindAlike scope span' (eraseTypes arms))
  | [] => .error
  | e :: es => by
    rw [eraseTypes, bindAlike, bindAlike]
    exact (TypeExpr.bind_alike scope e).bind_eq fun type => bindSame_alike scope span span' type es

theorem bindSame_alike (scope : Scope) (span span' : Span) (type : Ty) : (arms : List TypeExpr) →
    Alike Eq (bindSame scope span type arms) (bindSame scope span' type (eraseTypes arms))
  | [] => .ok rfl
  | e :: es => by
    rw [eraseTypes, bindSame, bindSame]
    refine (TypeExpr.bind_alike scope e).bind_eq fun other => ?_
    split
    · exact bindSame_alike scope span span' type es
    · exact .error

theorem bindRequired_alike (scope : Scope) (span span' : Span) (problem : Problem) :
    (type : Option TypeExpr) →
    Alike Eq (bindRequired scope span problem type)
      (bindRequired scope span' problem (eraseType? type))
  | none => .error
  | some e => TypeExpr.bind_alike scope e

theorem bindParameters_alike (scope : Scope) (owner : SignatureOwner) : (ps : List Parameter) →
    Alike BoundParameters.Agrees (bindParameters scope owner ps)
      (bindParameters scope owner (eraseParameters ps))
  | [] => .ok ⟨rfl, rfl⟩
  | ⟨span, name, optional, rest, type⟩ :: ps => by
    rw [eraseParameters, Parameter.erase, bindParameters, bindParameters]
    split
    · exact bindParameters_alike scope owner ps
    · refine (bindRequired_alike scope span .nowhere _ type).bind_eq fun type => ?_
      split
      · exact .error
      · refine (bindParameters_alike scope owner ps).bind fun others others' h => .ok ?_
        obtain ⟨htypes, hrest⟩ := h
        refine ⟨by rw [htypes], ?_⟩
        cases rest <;> simp [hrest]

theorem bindMembers_alike (scope : Scope) (seen : List Field) : (ms : List Member) →
    Alike Eq (bindMembers scope seen ms) (bindMembers scope seen (eraseMembers ms))
  | [] => .ok rfl
  | m :: ms => by
    rw [eraseMembers, bindMembers, bindMembers]
    refine (Member.bind_alike scope m).bind_eq fun field => ?_
    split
    · exact .error
    · exact (bindMembers_alike scope (field :: seen) ms).bind_eq fun _ => .ok rfl

theorem Member.bind_alike (scope : Scope) :
    (m : Member) → Alike Eq (m.bind scope) (m.erase.bind scope)
  | .property span readonly key optional type => by
    rw [Member.erase, Member.bind, Member.bind]
    exact (bindRequired_alike scope span .nowhere _ type).bind_eq fun type =>
      bindField_alike span .nowhere key optional type
  | .method span key optional typeParameters parameters result => by
    rw [Member.erase, Member.bind, Member.bind]
    refine (scope.declareTypeParameters?_alike typeParameters).bind_eq fun (inner, quantified) => ?_
    refine (bindParameters_alike inner (.method key) parameters).bind fun ps qs hps => ?_
    refine (bindRequired_alike inner span .nowhere _ result).bind_eq fun type => ?_
    exact (hps.make quantified type).plainType.bind_eq fun type =>
      bindField_alike span .nowhere key optional type
  | .call .. | .construct .. | .index .. => by
    rw [Member.erase, Member.bind, Member.bind]
    exact .error

end

/-! ## Statements -/

theorem Variable.compile_alike (scope : Scope) (d : Variable) :
    Alike Eq (d.compile scope) (d.erase.compile scope) := by
  obtain ⟨span, exported, word, nameSpan, name, type⟩ := d
  cases type with
  | none => exact .error
  | some type => exact (type.bind_alike scope).bind_eq fun _ => .ok rfl

theorem Function.compile_alike (scope : Scope) (d : Function) :
    Alike Eq (d.compile scope) (d.erase.compile scope) := by
  have hsignature : Alike BoundSignature.Agrees
      (bindFunction scope d.nameSpan (.function d.name) d.typeParameters d.parameters d.result)
      (bindFunction scope .nowhere (.function d.name) (eraseTypeParameters? d.typeParameters)
        (eraseParameters d.parameters) (eraseType? d.result)) := by
    unfold bindFunction
    refine (scope.declareTypeParameters?_alike d.typeParameters).bind_eq
      fun (inner, quantified) => ?_
    refine (bindParameters_alike inner _ d.parameters).bind fun ps qs hps => ?_
    refine (bindRequired_alike inner d.nameSpan .nowhere _ d.result).bind_eq fun result => ?_
    exact .ok (hps.make quantified result)
  refine hsignature.bind fun s u h => .ok ?_
  obtain ⟨htype, hrest⟩ := h
  rw [htype, hrest]
  rfl

theorem TypeAlias.compile_alike (scope : Scope) (d : TypeAlias) :
    Alike Eq (d.compile scope) (d.erase.compile scope) := by
  unfold TypeAlias.compile
  by_cases hname : Letter.startsLower d.name
  · rw [if_pos hname, if_pos (by exact hname)]
    refine (scope.declareTypeParameters?_alike d.typeParameters).bind_eq
      fun (inner, parameters) => ?_
    exact (d.body.bind_alike inner).bind_eq fun _ => .ok rfl
  · rw [if_neg hname, if_neg (by exact hname)]
    exact .error

theorem Interface.compile_alike (scope : Scope) (d : Interface) :
    Alike Eq (d.compile scope) (d.erase.compile scope) := by
  obtain ⟨span, exported, nameSpan, name, typeParameters, bases, members⟩ := d
  unfold Interface.compile
  by_cases hname : Letter.startsUpper name
  · rw [if_pos (by exact hname), if_pos (by exact hname)]
    cases bases with
    | cons base bases => exact .error
    | nil =>
      refine (scope.declareTypeParameters?_alike typeParameters).bind_eq
        fun (inner, parameters) => ?_
      exact (bindMembers_alike _ [] members).bind_eq fun _ => .ok rfl
  · rw [if_neg (by exact hname), if_neg (by exact hname)]
    exact .error

mutual

theorem Declaration.compile_alike (scope : Scope) :
    (d : Declaration) → Alike Eq (d.compile scope) (d.erase.compile scope)
  | .ofModule span nameSpan name body => by
    cases name with
    | identifier name => exact .error
    | string name =>
      cases body with
      | none => exact .ok rfl
      | some body =>
        rw [Declaration.erase, eraseStatements?, Declaration.compile, Declaration.compile]
        exact (compileStatements_alike (scope.inModule name) body).bind_eq fun _ => .ok rfl
  | .ofVariable d => by
    rw [Declaration.erase, Declaration.compile, Declaration.compile]
    exact (d.compile_alike scope).bind_eq fun _ => .ok rfl
  | .ofFunction d => by
    rw [Declaration.erase, Declaration.compile, Declaration.compile]
    exact (d.compile_alike scope).bind_eq fun _ => .ok rfl
  | .ofTypeAlias d => by
    rw [Declaration.erase, Declaration.compile, Declaration.compile]
    exact (d.compile_alike scope).bind_eq fun _ => .ok rfl
  | .ofInterface d => by
    rw [Declaration.erase, Declaration.compile, Declaration.compile]
    exact (d.compile_alike scope).bind_eq fun _ => .ok rfl
  | .ofClass _ | .ofEnum _ | .ofNamespace .. | .ofGlobal .. | .empty _ | .exportAsNamespace ..
  | .exportAssignment .. | .exportList _ | .importing _ => by
    rw [Declaration.erase, Declaration.compile, Declaration.compile]
    exact .ok rfl

theorem Statement.compile_alike (scope : Scope) :
    (s : Statement) → Alike Eq (s.compile scope) (s.erase.compile scope)
  | ⟨_, declaration⟩ => by
    rw [Statement.erase, Statement.compile, Statement.compile]
    exact declaration.compile_alike scope

/-- Statements and their erasures are compiled alike. -/
theorem compileStatements_alike (scope : Scope) : (ss : List Statement) →
    Alike Eq (compileStatements scope ss) (compileStatements scope (eraseStatements ss))
  | [] => .ok rfl
  | s :: ss => by
    rw [eraseStatements, compileStatements, compileStatements]
    refine (s.compile_alike scope).bind_eq fun (items, scope) => ?_
    exact (compileStatements_alike scope ss).bind_eq fun _ => .ok rfl

end

theorem compileStatements_alike_of_erase_eq {scope : Scope} {ss ss' : List Statement}
    (h : eraseStatements ss = eraseStatements ss') :
    Alike Eq (compileStatements scope ss) (compileStatements scope ss') :=
  (compileStatements_alike scope ss).trans_symm (h ▸ compileStatements_alike scope ss')

end Ambient
