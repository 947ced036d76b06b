import Ambient.Proofs.Unions
import Mathlib.Data.List.Forall2
/-!
# Parentheses around types

`TypeExpr.Wraps` relates a type to the same type with parentheses around some of the types in it.
Parentheses are bound like what they hold, with one exception: an arm of a union that is null or
undefined is no longer told apart from the other arms once there are parentheses around it. Counting
those arms (`TypeExpr.nullishArms`) says exactly when parentheses are redundant: where a type is
bound before or after, it is bound to the same type if and only if the count stays the same.
-/

namespace Ambient

/-! ## Wrapping types -/

/-- Type parameters that are the same but for the types in them. -/
inductive TypeParameter.Matches (R : TypeExpr → TypeExpr → Prop) :
    TypeParameter → TypeParameter → Prop
  | mk {span name constraint constraint' fallback fallback'} :
    Option.Rel R constraint constraint' →
    Option.Rel R fallback fallback' →
    Matches R ⟨span, name, constraint, fallback⟩ ⟨span, name, constraint', fallback'⟩

/-- Parameters that are the same but for their types. -/
inductive Parameter.Matches (R : TypeExpr → TypeExpr → Prop) : Parameter → Parameter → Prop
  | mk {span name optional rest type type'} :
    Option.Rel R type type' →
    Matches R ⟨span, name, optional, rest, type⟩ ⟨span, name, optional, rest, type'⟩

/-- Members that are the same but for the types in them. -/
inductive Member.Matches (R : TypeExpr → TypeExpr → Prop) : Member → Member → Prop
  | property {span readonly key optional type type'} :
    Option.Rel R type type' →
    Matches R (.property span readonly key optional type)
      (.property span readonly key optional type')
  | method {span key optional typeParameters typeParameters' parameters parameters' result
      result'} :
    Option.Rel (List.Forall₂ (TypeParameter.Matches R)) typeParameters typeParameters' →
    List.Forall₂ (Parameter.Matches R) parameters parameters' →
    Option.Rel R result result' →
    Matches R (.method span key optional typeParameters parameters result)
      (.method span key optional typeParameters' parameters' result')
  | call {span typeParameters typeParameters' parameters parameters' result result'} :
    Option.Rel (List.Forall₂ (TypeParameter.Matches R)) typeParameters typeParameters' →
    List.Forall₂ (Parameter.Matches R) parameters parameters' →
    Option.Rel R result result' →
    Matches R (.call span typeParameters parameters result)
      (.call span typeParameters' parameters' result')
  | construct {span typeParameters typeParameters' parameters parameters' result result'} :
    Option.Rel (List.Forall₂ (TypeParameter.Matches R)) typeParameters typeParameters' →
    List.Forall₂ (Parameter.Matches R) parameters parameters' →
    Option.Rel R result result' →
    Matches R (.construct span typeParameters parameters result)
      (.construct span typeParameters' parameters' result')
  | index {span readonly name key key' type type'} :
    R key key' →
    R type type' →
    Matches R (.index span readonly name key type) (.index span readonly name key' type')

/-- The second type is the first with parentheses around any number of the types in it. -/
inductive TypeExpr.Wraps : TypeExpr → TypeExpr → Prop
  | wrap {e e'} (span : Span) : Wraps e e' → Wraps e (.parenthesized span e')
  | reference {span name arguments arguments'} :
    Option.Rel (List.Forall₂ Wraps) arguments arguments' →
    Wraps (.reference span name arguments) (.reference span name arguments')
  | literal {span value} : Wraps (.literal span value) (.literal span value)
  | array {span readonly element element'} :
    Wraps element element' →
    Wraps (.array span readonly element) (.array span readonly element')
  | tuple {span readonly elements elements'} :
    List.Forall₂ Wraps elements elements' →
    Wraps (.tuple span readonly elements) (.tuple span readonly elements')
  | union {span arms arms'} :
    List.Forall₂ Wraps arms arms' →
    Wraps (.union span arms) (.union span arms')
  | intersection {span arms arms'} :
    List.Forall₂ Wraps arms arms' →
    Wraps (.intersection span arms) (.intersection span arms')
  | function {span typeParameters typeParameters' parameters parameters' result result'} :
    Option.Rel (List.Forall₂ (TypeParameter.Matches Wraps)) typeParameters typeParameters' →
    List.Forall₂ (Parameter.Matches Wraps) parameters parameters' →
    Wraps result result' →
    Wraps (.function span typeParameters parameters result)
      (.function span typeParameters' parameters' result')
  | constructor {span typeParameters typeParameters' parameters parameters' result result'} :
    Option.Rel (List.Forall₂ (TypeParameter.Matches Wraps)) typeParameters typeParameters' →
    List.Forall₂ (Parameter.Matches Wraps) parameters parameters' →
    Wraps result result' →
    Wraps (.constructor span typeParameters parameters result)
      (.constructor span typeParameters' parameters' result')
  | object {span members members'} :
    List.Forall₂ (Member.Matches Wraps) members members' →
    Wraps (.object span members) (.object span members')
  | parenthesized {span inner inner'} :
    Wraps inner inner' →
    Wraps (.parenthesized span inner) (.parenthesized span inner')
  | indexedAccess {span indexed indexed' index index'} :
    Wraps indexed indexed' →
    Wraps index index' →
    Wraps (.indexedAccess span indexed index) (.indexedAccess span indexed' index')
  | query {span name} : Wraps (.query span name) (.query span name)
  | keyOf {span operand operand'} :
    Wraps operand operand' →
    Wraps (.keyOf span operand) (.keyOf span operand')
  | this {span} : Wraps (.this span) (.this span)

/-! ## Counting arms -/

mutual

/-- How many arms of unions in a type are null or undefined, where the unions are bound with the
type. What has no binding has none. -/
def TypeExpr.nullishArms (scope : Scope) : TypeExpr → Nat
  | .reference _ _ arguments => nullishArmsInArguments scope arguments
  | .array _ _ element => element.nullishArms scope
  | .tuple _ _ elements => nullishArmsInTypes scope elements
  | .union _ arms => arms.countP scope.isNullish + nullishArmsInTypes scope arms
  | .function _ typeParameters parameters result =>
    match scope.declareTypeParameters? typeParameters with
    | .ok (inner, _) => nullishArmsInParameters inner parameters + result.nullishArms inner
    | .error _ => 0
  | .object _ members => nullishArmsInMembers scope members
  | .parenthesized _ inner => inner.nullishArms scope
  | .literal .. | .intersection .. | .constructor .. | .indexedAccess .. | .query .. | .keyOf ..
  | .this .. => 0

/-- How many there are in types. -/
def nullishArmsInTypes (scope : Scope) : List TypeExpr → Nat
  | [] => 0
  | t :: ts => t.nullishArms scope + nullishArmsInTypes scope ts

/-- How many there are in type arguments. -/
def nullishArmsInArguments (scope : Scope) : Option (List TypeExpr) → Nat
  | none => 0
  | some ts => nullishArmsInTypes scope ts

/-- How many there are in a type that may be absent. -/
def nullishArmsInType? (scope : Scope) : Option TypeExpr → Nat
  | none => 0
  | some t => t.nullishArms scope

/-- How many there are in parameters that are passed. -/
def nullishArmsInParameters (scope : Scope) : List Parameter → Nat
  | [] => 0
  | ⟨_, name, _, _, type⟩ :: ps =>
    if name == "this" then nullishArmsInParameters scope ps
    else nullishArmsInType? scope type + nullishArmsInParameters scope ps

/-- How many there are in members. -/
def nullishArmsInMembers (scope : Scope) : List Member → Nat
  | [] => 0
  | m :: ms => m.nullishArms scope + nullishArmsInMembers scope ms

/-- How many there are in a member. -/
def Member.nullishArms (scope : Scope) : Member → Nat
  | .property _ _ _ _ type => nullishArmsInType? scope type
  | .method _ _ _ typeParameters parameters result =>
    match scope.declareTypeParameters? typeParameters with
    | .ok (inner, _) => nullishArmsInParameters inner parameters + nullishArmsInType? inner result
    | .error _ => 0
  | .call .. | .construct .. | .index .. => 0

end

/-! ## Before and after -/

/-- A binding before and after wrapping, with as many arms that are null or undefined: there are not
more of them after, and the outcome stays the same exactly if their number does. -/
structure Compiled.Wrapped {α : Type} (n n' : Nat) (x x' : Compiled α) : Prop where
  le : n' ≤ n
  same : n' = n → ∀ a, x = .ok a ↔ x' = .ok a
  exact : ∀ a, x = .ok a → x' = .ok a → n' = n

namespace Compiled.Wrapped

variable {α β : Type} {n n' m m' : Nat} {x x' : Compiled α}

theorem refl (x : Compiled α) : Wrapped 0 0 x x :=
  ⟨Nat.le_refl 0, fun _ _ => Iff.rfl, fun _ _ _ => rfl⟩

theorem error (h : n' ≤ n) (e e' : CompileError) :
    Wrapped n n' (.error e : Compiled α) (.error e') :=
  ⟨h, fun _ _ => by simp, fun _ h => by cases h⟩

/-- One binding after the other. What comes out must tell what the first one gave. -/
theorem bind [Nonempty α] {f f' : α → Compiled β} (h : Wrapped n n' x x')
    (hf : ∀ a, Wrapped m m' (f a) (f' a))
    (hinj : ∀ a a' b, x = .ok a → x' = .ok a' → f a = .ok b → f' a' = .ok b → a = a') :
    Wrapped (n + m) (n' + m') (x >>= f) (x' >>= f') := by
  have hm : m' ≤ m := (hf (Classical.ofNonempty)).le
  have hn := h.le
  constructor
  · exact Nat.add_le_add hn hm
  · intro hsum b
    have hnn : n' = n := by omega
    have hmm : m' = m := by omega
    simp only [Compiled.bind_eq_ok, h.same hnn, (hf _).same hmm]
  · intro b hb hb'
    obtain ⟨a, hx, hfa⟩ := Compiled.bind_eq_ok.1 hb
    obtain ⟨a', hx', hfa'⟩ := Compiled.bind_eq_ok.1 hb'
    obtain rfl := hinj a a' b hx hx' hfa hfa'
    rw [h.exact a hx hx', (hf a).exact b hfa hfa']

theorem map [Nonempty α] {f : α → β} (h : Wrapped n n' x x')
    (hinj : ∀ a a', x = .ok a → x' = .ok a' → f a = f a' → a = a') :
    Wrapped n n' (x >>= fun a => .ok (f a)) (x' >>= fun a => .ok (f a)) := by
  refine h.bind (fun a => refl _) fun a a' b hx hx' hb hb' => hinj a a' hx hx' ?_
  exact Except.ok.inj (hb.trans hb'.symm)

end Compiled.Wrapped

/-- The bindings of a type before and after wrapping. -/
def TypeExpr.BindsWrapped (scope : Scope) (e e' : TypeExpr) : Prop :=
  Compiled.Wrapped (e.nullishArms scope) (e'.nullishArms scope) (e.bind scope) (e'.bind scope)

/-- A type before and after wrapping. -/
structure TypeExpr.Wrapped (scope : Scope) (e e' : TypeExpr) : Prop where
  wraps : e.Wraps e'
  binding : e.BindsWrapped scope e'

/-- A type before and after wrapping, in whatever scope it is bound. -/
def TypeExpr.AlwaysWrapped (e e' : TypeExpr) : Prop := ∀ scope, TypeExpr.Wrapped scope e e'

/-! ## Lists of types -/

section

variable {scope : Scope}

theorem exists_mem_of_forall₂ {α β : Type} {R : α → β → Prop} {as : List α} {bs : List β}
    (h : List.Forall₂ R as bs) {a : α} (ha : a ∈ as) : ∃ b ∈ bs, R a b := by
  induction h with
  | nil => cases ha
  | @cons a' b as bs hab _ ih =>
    rcases List.mem_cons.1 ha with rfl | ha
    · exact ⟨b, List.mem_cons_self, hab⟩
    · obtain ⟨b', hb', hab'⟩ := ih ha
      exact ⟨b', List.mem_cons_of_mem b hb', hab'⟩

theorem wrapped_bindTypes {es es' : List TypeExpr}
    (h : List.Forall₂ (TypeExpr.Wrapped scope) es es') :
    Compiled.Wrapped (nullishArmsInTypes scope es) (nullishArmsInTypes scope es')
      (bindTypes scope es) (bindTypes scope es') := by
  induction h with
  | nil => exact .refl _
  | @cons e e' es es' he _ ih =>
    unfold nullishArmsInTypes bindTypes
    refine he.binding.bind (fun t => ih.map fun ts ts' _ _ h => (List.cons.inj h).2) ?_
    intro t t' us _ _ h h'
    obtain ⟨ts, _, rfl⟩ := Compiled.map_eq_ok.1 h
    obtain ⟨ts', _, h⟩ := Compiled.map_eq_ok.1 h'
    exact (List.cons.inj h).1.symm

theorem wrapped_bindArguments {arguments arguments' : Option (List TypeExpr)}
    (h : Option.Rel (List.Forall₂ (TypeExpr.Wrapped scope)) arguments arguments') :
    Compiled.Wrapped (nullishArmsInArguments scope arguments)
      (nullishArmsInArguments scope arguments') (bindArguments scope arguments)
      (bindArguments scope arguments') := by
  cases h with
  | none => exact .refl _
  | some h => exact wrapped_bindTypes h

/-- An entry applied to as many arguments as it takes tells its arguments. -/
theorem Scope.target_inj {entry : Entry} {as as' : List Ty} (h : as.length = entry.arity)
    (h' : as'.length = entry.arity) (heq : scope.target as entry = scope.target as' entry) :
    as = as' := by
  have hnone : entry.arity = 0 → as = as' := by
    intro h0
    rw [List.length_eq_zero_iff.1 (h.trans h0), List.length_eq_zero_iff.1 (h'.trans h0)]
  cases entry with
  | builtIn b =>
    cases b with
    | array | readonlyArray | promise => simpa [Scope.target, BuiltIn.target] using heq
    | _ => exact hnone rfl
  | typeAlias name arity => exact (Ty.constructor.inj heq).2
  | interface name arity =>
    by_cases hself : scope.interfaceName = some name
    · simpa [Scope.target, hself] using heq
    · simpa [Scope.target, hself] using heq
  | typeVariable name printed => exact hnone rfl

theorem wrapped_reference {span : Span} {name : EntityName}
    {arguments arguments' : Option (List TypeExpr)}
    (h : Option.Rel (List.Forall₂ (TypeExpr.Wrapped scope)) arguments arguments') :
    (TypeExpr.reference span name arguments).BindsWrapped scope
      (.reference span name arguments') := by
  have hlen : (arguments.getD []).length = (arguments'.getD []).length := by
    cases h with
    | none => rfl
    | some h => exact h.length_eq
  have hargs := wrapped_bindArguments h
  unfold TypeExpr.BindsWrapped TypeExpr.bind TypeExpr.nullishArms
  rw [← hlen]
  cases hentry : scope.resolve span name (arguments.getD []).length with
  | error e => exact .error hargs.le e e
  | ok entry =>
    obtain ⟨_, _, _, harity, _⟩ := Scope.resolve_eq_ok hentry
    refine hargs.map fun ts ts' hts hts' => Scope.target_inj ?_ ?_
    · rw [← (bindArguments_binds scope _ _ hts).1, harity]
    · rw [← (bindArguments_binds scope _ _ hts').1, ← hlen, harity]

theorem wrapped_tuple {span : Span} {readonly : Bool} {elements elements' : List TypeExpr}
    (h : List.Forall₂ (TypeExpr.Wrapped scope) elements elements') :
    (TypeExpr.tuple span readonly elements).BindsWrapped scope
      (.tuple span readonly elements') := by
  have htypes := wrapped_bindTypes h
  unfold TypeExpr.BindsWrapped TypeExpr.bind TypeExpr.nullishArms
  rw [← h.length_eq]
  split
  · exact .error htypes.le _ _
  · exact htypes.map fun _ _ _ _ => Ty.tuple.inj

/-! ## Unions -/

theorem TypeExpr.Wraps.nullish {e e' : TypeExpr} (h : e.Wraps e') (he' : scope.Nullish e') :
    scope.Nullish e := by
  obtain ⟨span, name, rfl, hname⟩ := he'
  cases h with
  | reference harguments =>
    cases harguments with
    | none => exact ⟨span, name, rfl, hname⟩

theorem TypeExpr.nullishArms_of_nullish {e : TypeExpr} (he : scope.Nullish e) :
    e.nullishArms scope = 0 := by
  obtain ⟨span, name, rfl, -⟩ := he
  rfl

/-- Null and undefined are not bound to a nullable type. -/
theorem TypeExpr.ne_orNullish_of_nullish {e : TypeExpr} (he : scope.Nullish e) {t : Ty}
    (ht : e.bind scope = .ok t) (u : Ty) : t ≠ u.orNullish := by
  obtain ⟨span, name, rfl, hname⟩ := he
  unfold TypeExpr.bind at ht
  obtain ⟨entry, hentry, ht⟩ := Compiled.bind_eq_ok.1 ht
  obtain ⟨ts, -, rfl⟩ := Compiled.map_eq_ok.1 ht
  obtain ⟨_, hn, hlookup, -⟩ := Scope.resolve_eq_ok hentry
  obtain rfl := EntityName.identifier.inj hn
  rcases hname with hname | hname
  · obtain rfl := Option.some.inj (hlookup.symm.trans hname)
    simp [Scope.target, BuiltIn.target, Ty.orNullish]
  · obtain rfl := Option.some.inj (hlookup.symm.trans hname)
    simp [Scope.target, BuiltIn.target, Ty.orNullish, Ty.unit, Ty.named]

theorem Scope.forall₂_proper {R : TypeExpr → TypeExpr → Prop}
    (hR : ∀ a a', R a a' → (scope.Nullish a ↔ scope.Nullish a')) {arms arms' : List TypeExpr}
    (h : List.Forall₂ R arms arms') :
    List.Forall₂ R (scope.proper arms) (scope.proper arms') := by
  refine List.rel_filter (fun a a' ha => ?_) h
  simp only [Bool.not_eq_true', ← Bool.not_eq_true, isNullish_iff, hR a a' ha]

/-- Arms that a union does not tell apart. -/
structure TypeExpr.Interchangeable (scope : Scope) (e e' : TypeExpr) : Prop where
  nullish : scope.Nullish e ↔ scope.Nullish e'
  bind : ∀ t, e.bind scope = .ok t ↔ e'.bind scope = .ok t

namespace TypeExpr.Interchangeable

variable {arms arms' : List TypeExpr}

theorem symm {e e' : TypeExpr} (h : Interchangeable scope e e') : Interchangeable scope e' e :=
  ⟨h.nullish.symm, fun t => (h.bind t).symm⟩

theorem bind_union {span : Span} {t : Ty} (h : List.Forall₂ (Interchangeable scope) arms arms')
    (ht : (TypeExpr.union span arms).bind scope = .ok t) :
    (TypeExpr.union span arms').bind scope = .ok t := by
  have hback := (h.imp fun _ _ => symm).flip
  by_cases hany : ∃ a ∈ arms, scope.Nullish a
  · have hany' : ∃ a ∈ arms', scope.Nullish a := by
      obtain ⟨a, ha, hnullish⟩ := hany
      obtain ⟨a', ha', h'⟩ := exists_mem_of_forall₂ h ha
      exact ⟨a', ha', h'.nullish.1 hnullish⟩
    obtain ⟨arm, u, harm, hu, rfl⟩ := (bind_union_of_nullish hany).1 ht
    have hproper := Scope.forall₂_proper (fun _ _ => nullish) h
    rw [harm] at hproper
    obtain ⟨arm', others, harm', hothers, hproper'⟩ := List.forall₂_cons_left_iff.1 hproper
    obtain rfl := List.forall₂_nil_left_iff.1 hothers
    exact (bind_union_of_nullish hany').2 ⟨arm', u, hproper', (harm'.bind u).1 hu, rfl⟩
  · have hnone : ∀ a ∈ arms, ¬ scope.Nullish a := by simpa using hany
    obtain ⟨hne, hbind⟩ := (bind_union_of_proper hnone).1 ht
    have hpartner : ∀ a' ∈ arms', ∃ a ∈ arms, Interchangeable scope a' a :=
      fun a' ha' => exists_mem_of_forall₂ hback ha'
    refine (bind_union_of_proper fun a' ha' hnullish => ?_).2 ⟨?_, fun a' ha' => ?_⟩
    · obtain ⟨a, ha, h'⟩ := hpartner a' ha'
      exact hnone a ha (h'.nullish.1 hnullish)
    · rintro rfl
      exact hne (List.forall₂_nil_right_iff.1 h)
    · obtain ⟨a, ha, h'⟩ := hpartner a' ha'
      exact (h'.bind t).2 (hbind a ha)

end TypeExpr.Interchangeable

namespace TypeExpr.Wrapped

variable {e e' : TypeExpr} {arms arms' : List TypeExpr}

/-- Null and undefined are bound alike with and without parentheses. -/
theorem of_nullish (h : Wrapped scope e e') (he : scope.Nullish e) :
    e'.nullishArms scope = 0 ∧ ∀ t, e.bind scope = .ok t ↔ e'.bind scope = .ok t := by
  have hzero := nullishArms_of_nullish he
  have hle := h.binding.le
  exact ⟨by omega, h.binding.same (by omega)⟩

theorem isNullish_of_wrapped (h : Wrapped scope e e') (he' : scope.isNullish e') :
    scope.isNullish e :=
  Scope.isNullish_iff.2 (h.wraps.nullish (Scope.isNullish_iff.1 he'))

theorem countP_le (h : List.Forall₂ (Wrapped scope) arms arms') :
    arms'.countP scope.isNullish ≤ arms.countP scope.isNullish := by
  induction h with
  | nil => exact Nat.le_refl 0
  | @cons a a' as as' ha _ ih =>
    rw [List.countP_cons, List.countP_cons]
    by_cases ha' : scope.isNullish a'
    · rw [if_pos ha', if_pos (isNullish_of_wrapped ha ha')]
      exact Nat.add_le_add_right ih 1
    · rw [if_neg ha']
      exact Nat.le_add_right_of_le ih

/-- If as many arms are null or undefined as before, it is the same arms. -/
theorem nullish_iff_of_countP (h : List.Forall₂ (Wrapped scope) arms arms')
    (hcount : arms'.countP scope.isNullish = arms.countP scope.isNullish) :
    List.Forall₂ (fun a a' => Wrapped scope a a' ∧ (scope.Nullish a ↔ scope.Nullish a')) arms
      arms' := by
  induction h with
  | nil => exact .nil
  | @cons a a' as as' ha has ih =>
    rw [List.countP_cons, List.countP_cons] at hcount
    have hle := countP_le has
    simp only [← Scope.isNullish_iff]
    by_cases ha' : scope.isNullish a'
    · have hn := isNullish_of_wrapped ha ha'
      rw [if_pos ha', if_pos hn] at hcount
      exact .cons ⟨ha, by simp [ha', hn]⟩ (by simpa [Scope.isNullish_iff] using ih (by omega))
    · by_cases hn : scope.isNullish a
      · rw [if_neg ha', if_pos hn] at hcount
        omega
      · rw [if_neg ha', if_neg hn] at hcount
        exact .cons ⟨ha, by simp [ha', hn]⟩ (by simpa [Scope.isNullish_iff] using ih hcount)

/-- If no arm that is null or undefined is wrapped, each arm is as good as it was. -/
theorem interchangeable (h : List.Forall₂ (Wrapped scope) arms arms')
    (hcount : arms'.countP scope.isNullish + nullishArmsInTypes scope arms' =
      arms.countP scope.isNullish + nullishArmsInTypes scope arms) :
    List.Forall₂ (Interchangeable scope) arms arms' := by
  have hle := countP_le h
  have hle' := (wrapped_bindTypes h).le
  have hflags := nullish_iff_of_countP h (by omega)
  have hinside : nullishArmsInTypes scope arms' = nullishArmsInTypes scope arms := by omega
  clear hcount hle hle' h
  induction hflags with
  | nil => exact .nil
  | @cons a a' as as' ha has ih =>
    have hle := ha.1.binding.le
    have hle' := (wrapped_bindTypes (has.imp fun _ _ h => h.1)).le
    rw [nullishArmsInTypes, nullishArmsInTypes] at hinside
    exact .cons ⟨ha.2, ha.1.binding.same (by omega)⟩ (ih (by omega))

theorem nullishArmsInTypes_proper (scope : Scope) (arms : List TypeExpr) :
    nullishArmsInTypes scope (scope.proper arms) = nullishArmsInTypes scope arms := by
  induction arms with
  | nil => rfl
  | cons a as ih =>
    unfold Scope.proper at ih ⊢
    by_cases ha : scope.isNullish a
    · rw [List.filter_cons_of_neg (by simpa using ha), ih, nullishArmsInTypes,
        nullishArms_of_nullish (Scope.isNullish_iff.1 ha), Nat.zero_add]
    · rw [List.filter_cons_of_pos (by simpa using ha), nullishArmsInTypes, nullishArmsInTypes, ih]

theorem countP_eq_of_length_proper (hlen : arms.length = arms'.length)
    (hproper : (scope.proper arms).length = (scope.proper arms').length) :
    arms'.countP scope.isNullish = arms.countP scope.isNullish := by
  have h := List.length_eq_countP_add_countP scope.isNullish (l := arms)
  have h' := List.length_eq_countP_add_countP scope.isNullish (l := arms')
  simp only [Scope.proper, ← List.countP_eq_length_filter] at hproper
  simp at h h'
  omega

theorem nullishArmsInTypes_eq {t : Ty} (h : List.Forall₂ (Wrapped scope) arms arms')
    (ht : ∀ a ∈ arms, a.bind scope = .ok t) (ht' : ∀ a ∈ arms', a.bind scope = .ok t) :
    nullishArmsInTypes scope arms' = nullishArmsInTypes scope arms := by
  induction h with
  | nil => rfl
  | cons ha _ ih =>
    rw [List.forall_mem_cons] at ht ht'
    rw [nullishArmsInTypes, nullishArmsInTypes, ih ht.2 ht'.2, ha.binding.exact t ht.1 ht'.1]

/-- A union with the same type before and after wrapping has no wrapped arm that is null or
undefined. -/
theorem exact_union {span : Span} {t : Ty} (h : List.Forall₂ (Wrapped scope) arms arms')
    (ht : (TypeExpr.union span arms).bind scope = .ok t)
    (ht' : (TypeExpr.union span arms').bind scope = .ok t) :
    arms'.countP scope.isNullish + nullishArmsInTypes scope arms' =
      arms.countP scope.isNullish + nullishArmsInTypes scope arms := by
  by_cases hany : ∃ a ∈ arms, scope.Nullish a
  · obtain ⟨arm, u, harm, hu, rfl⟩ := (bind_union_of_nullish hany).1 ht
    by_cases hany' : ∃ a ∈ arms', scope.Nullish a
    · obtain ⟨arm', u', harm', hu', hnullish⟩ := (bind_union_of_nullish hany').1 ht'
      obtain rfl : u = u' := by simpa [Ty.orNullish] using hnullish
      have hlen : (scope.proper arms).length = (scope.proper arms').length := by simp [harm, harm']
      have hcount := countP_eq_of_length_proper h.length_eq hlen
      have hproper := Scope.forall₂_proper (fun _ _ ha => ha.2) (nullish_iff_of_countP h hcount)
      rw [hcount, ← nullishArmsInTypes_proper, ← nullishArmsInTypes_proper scope arms,
        nullishArmsInTypes_eq (hproper.imp fun _ _ ha => ha.1) (t := u) (by simpa [harm] using hu)
          (by simpa [harm'] using hu')]
    · -- A wrapped arm that was null or undefined would have to be bound to a nullable type.
      have hnone' : ∀ a ∈ arms', ¬ scope.Nullish a := by simpa using hany'
      obtain ⟨a, ha, hnullish⟩ := hany
      obtain ⟨a', ha', h'⟩ := exists_mem_of_forall₂ h ha
      have hbind' := ((bind_union_of_proper hnone').1 ht').2 a' ha'
      have hbind := ((h'.of_nullish hnullish).2 _).2 hbind'
      exact absurd rfl (ne_orNullish_of_nullish hnullish hbind u)
  · have hzero : arms.countP scope.isNullish = 0 := by
      simpa [List.countP_eq_zero, ← Scope.isNullish_iff] using hany
    have hzero' : arms'.countP scope.isNullish = 0 := Nat.le_zero.1 (hzero ▸ countP_le h)
    have hnone : ∀ a ∈ arms, ¬ scope.Nullish a := by simpa using hany
    have hnone' : ∀ a ∈ arms', ¬ scope.Nullish a := by
      simpa [List.countP_eq_zero, ← Scope.isNullish_iff] using hzero'
    rw [hzero, hzero', nullishArmsInTypes_eq h ((bind_union_of_proper hnone).1 ht).2
      ((bind_union_of_proper hnone').1 ht').2]

/-- A union of which arms are wrapped. -/
theorem union {span : Span} (h : List.Forall₂ (Wrapped scope) arms arms') :
    (TypeExpr.union span arms).BindsWrapped scope (.union span arms') := by
  simp only [TypeExpr.BindsWrapped, TypeExpr.nullishArms]
  constructor
  · exact Nat.add_le_add (countP_le h) (wrapped_bindTypes h).le
  · intro hcount t
    have hsame := interchangeable h hcount
    have hback := (hsame.imp fun _ _ => Interchangeable.symm).flip
    exact ⟨Interchangeable.bind_union hsame, Interchangeable.bind_union hback⟩
  · intro t
    exact exact_union h

end TypeExpr.Wrapped

/-! ## Signatures and members -/

/-- Type parameters are declared by their names. -/
theorem Scope.declareTypeParameters_matches {R : TypeExpr → TypeExpr → Prop}
    {ps ps' : List TypeParameter} (h : List.Forall₂ (TypeParameter.Matches R) ps ps')
    (scope : Scope) : scope.declareTypeParameters ps = scope.declareTypeParameters ps' := by
  induction h generalizing scope with
  | nil => rfl
  | cons hp _ ih =>
    cases hp
    simp only [Scope.declareTypeParameters, ih]

theorem Scope.declareTypeParameters?_matches {R : TypeExpr → TypeExpr → Prop}
    {ps ps' : Option (List TypeParameter)}
    (h : Option.Rel (List.Forall₂ (TypeParameter.Matches R)) ps ps') (scope : Scope) :
    scope.declareTypeParameters? ps = scope.declareTypeParameters? ps' := by
  cases h with
  | none => rfl
  | some h => exact Scope.declareTypeParameters_matches h scope

theorem wrapped_bindRequired {span : Span} {problem : Problem} {type type' : Option TypeExpr}
    (h : Option.Rel TypeExpr.AlwaysWrapped type type') :
    Compiled.Wrapped (nullishArmsInType? scope type) (nullishArmsInType? scope type')
      (bindRequired scope span problem type) (bindRequired scope span problem type') := by
  cases h with
  | none => exact .error (Nat.le_refl 0) _ _
  | some h => exact (h scope).binding

instance : Nonempty BoundParameters := ⟨⟨[], none⟩⟩

theorem Ty.optionally_inj {t t' : Ty} {optional : Bool}
    (h : t.optionally optional = t'.optionally optional) : t = t' := by
  cases optional with
  | false => exact h
  | true => simpa [Ty.optionally, Ty.orUndefined] using h

/-- What `bindParameters` answers for a parameter that is passed. -/
theorem bindParameters_cons_eq_ok {owner : SignatureOwner} {span : Span} {name : String}
    {optional rest : Bool} {type : Option TypeExpr} {ps : List Parameter} {bound : BoundParameters}
    (hpassed : ¬ name == "this")
    (h : bindParameters scope owner (⟨span, name, optional, rest, type⟩ :: ps) = .ok bound) :
    ∃ (t : Ty) (others : BoundParameters), bindParameters scope owner ps = .ok others ∧
      bound = ⟨t.optionally optional :: others.types,
        others.rest.or (if rest then some span else none)⟩ := by
  unfold bindParameters at h
  rw [if_neg hpassed] at h
  obtain ⟨t, -, h⟩ := Compiled.bind_eq_ok.1 h
  split at h
  · cases h
  · obtain ⟨others, hothers, rfl⟩ := Compiled.map_eq_ok.1 h
    exact ⟨t, others, hothers, rfl⟩

/-- Apart from the types that they are bound to, the parameters say what comes out. -/
theorem bindParameters_matches {R : TypeExpr → TypeExpr → Prop} {owner : SignatureOwner}
    {ps ps' : List Parameter} (h : List.Forall₂ (Parameter.Matches R) ps ps')
    {bound bound' : BoundParameters} (hbound : bindParameters scope owner ps = .ok bound)
    (hbound' : bindParameters scope owner ps' = .ok bound') :
    bound.types.length = bound'.types.length ∧ bound.rest = bound'.rest := by
  induction h generalizing bound bound' with
  | nil =>
    obtain rfl := Except.ok.inj (hbound.symm.trans hbound')
    exact ⟨rfl, rfl⟩
  | cons hp _ ih =>
    cases hp with
    | @mk span name =>
      by_cases hthis : name == "this"
      · unfold bindParameters at hbound hbound'
        rw [if_pos hthis] at hbound hbound'
        exact ih hbound hbound'
      · obtain ⟨t, others, hothers, rfl⟩ := bindParameters_cons_eq_ok hthis hbound
        obtain ⟨t', others', hothers', rfl⟩ := bindParameters_cons_eq_ok hthis hbound'
        obtain ⟨hlen, hrest⟩ := ih hothers hothers'
        exact ⟨by simp [hlen], by simp [hrest]⟩

theorem wrapped_bindParameters {owner : SignatureOwner} {ps ps' : List Parameter}
    (h : List.Forall₂ (Parameter.Matches TypeExpr.AlwaysWrapped) ps ps') :
    Compiled.Wrapped (nullishArmsInParameters scope ps) (nullishArmsInParameters scope ps')
      (bindParameters scope owner ps) (bindParameters scope owner ps') := by
  induction h with
  | nil => exact .refl _
  | cons hp hps ih =>
    cases hp with
    | @mk span name optional rest type type' htype =>
      unfold nullishArmsInParameters bindParameters
      by_cases hthis : name == "this"
      · rw [if_pos hthis, if_pos hthis, if_pos hthis, if_pos hthis]
        exact ih
      · rw [if_neg hthis, if_neg hthis, if_neg hthis, if_neg hthis]
        refine (wrapped_bindRequired htype).bind (fun t => ?_) ?_
        · split
          · exact .error ih.le _ _
          · refine ih.map fun others others' hothers hothers' h => ?_
            have hrest := (bindParameters_matches hps hothers hothers').2
            have htypes := (List.cons.inj (congrArg BoundParameters.types h)).2
            exact congrArg₂ BoundParameters.mk htypes hrest
        · intro t t' bound _ _ h h'
          split at h
          · cases h
          · split at h'
            · cases h'
            · obtain ⟨others, _, rfl⟩ := Compiled.map_eq_ok.1 h
              obtain ⟨others', _, h⟩ := Compiled.map_eq_ok.1 h'
              have hhead := (List.cons.inj (congrArg BoundParameters.types h)).1
              exact (Ty.optionally_inj hhead).symm

theorem BoundSignature.plainType_inj {vs : List String} {ps ps' : BoundParameters} {r r' t : Ty}
    (hlen : ps.types.length = ps'.types.length) (h : (make vs ps r).plainType = .ok t)
    (h' : (make vs ps' r').plainType = .ok t) : ps = ps' ∧ r = r' := by
  obtain ⟨hrest, rfl⟩ := plainType_eq_ok h
  obtain ⟨hrest', ht⟩ := plainType_eq_ok h'
  obtain ⟨-, htypes, hresult⟩ := Ty.arrow.inj ht
  refine ⟨congrArg₂ BoundParameters.mk ?_ (hrest.trans hrest'.symm), hresult⟩
  by_cases hnone : ps.types = []
  · rw [hnone, eq_comm, ← List.length_eq_zero_iff, ← hlen, hnone, List.length_nil]
  · have hnone' : ps'.types ≠ [] := by
      rwa [ne_eq, ← List.length_eq_zero_iff, ← hlen, List.length_eq_zero_iff]
    simpa [make, hnone, hnone'] using htypes

/-- The parameters and the result of a signature, in the scope of its type parameters. -/
theorem wrapped_signature {owner : SignatureOwner} {vs : List String} {ps ps' : List Parameter}
    {n n' : Nat} {result result' : Compiled Ty}
    (hps : List.Forall₂ (Parameter.Matches TypeExpr.AlwaysWrapped) ps ps')
    (hresult : Compiled.Wrapped n n' result result') :
    Compiled.Wrapped (nullishArmsInParameters scope ps + n) (nullishArmsInParameters scope ps' + n')
      (do (BoundSignature.make vs (← bindParameters scope owner ps) (← result)).plainType)
      (do (BoundSignature.make vs (← bindParameters scope owner ps') (← result')).plainType) := by
  refine (wrapped_bindParameters hps).bind (fun bound => ?_) ?_
  · refine hresult.bind (fun r => .refl _) fun r r' t _ _ h h' => ?_
    exact (BoundSignature.plainType_inj rfl h h').2
  · intro bound bound' t hbound hbound' h h'
    obtain ⟨r, -, h⟩ := Compiled.bind_eq_ok.1 h
    obtain ⟨r', -, h'⟩ := Compiled.bind_eq_ok.1 h'
    exact (BoundSignature.plainType_inj (bindParameters_matches hps hbound hbound').1 h h').1

theorem wrapped_bindField {span : Span} {key : String} {optional : Bool} {n n' : Nat}
    {type type' : Compiled Ty} (h : Compiled.Wrapped n n' type type') :
    Compiled.Wrapped n n' (do bindField span key optional (← type))
      (do bindField span key optional (← type')) := by
  refine h.bind (fun t => .refl _) fun t t' f _ _ hf hf' => ?_
  obtain ⟨-, rfl⟩ := bindField_eq_ok hf
  obtain ⟨-, hf⟩ := bindField_eq_ok hf'
  exact Ty.optionally_inj (congrArg Field.type hf)

end

section

variable {scope : Scope} {typeParameters typeParameters' : Option (List TypeParameter)}
  {parameters parameters' : List Parameter} {R : TypeExpr → TypeExpr → Prop}

theorem wrapped_function {span : Span} {result result' : TypeExpr}
    (hdecl : Option.Rel (List.Forall₂ (TypeParameter.Matches R)) typeParameters typeParameters')
    (hps : List.Forall₂ (Parameter.Matches TypeExpr.AlwaysWrapped) parameters parameters')
    (hresult : result.AlwaysWrapped result') :
    (TypeExpr.function span typeParameters parameters result).BindsWrapped scope
      (.function span typeParameters' parameters' result') := by
  unfold TypeExpr.BindsWrapped TypeExpr.bind TypeExpr.nullishArms
  rw [← Scope.declareTypeParameters?_matches hdecl]
  cases scope.declareTypeParameters? typeParameters with
  | error e => exact .error (Nat.le_refl 0) e e
  | ok inner =>
    exact wrapped_signature hps (hresult inner.1).binding

/-- A member before and after wrapping, in whatever scope it is bound. -/
def Member.AlwaysWrapped (m m' : Member) : Prop :=
  ∀ scope, Compiled.Wrapped (m.nullishArms scope) (m'.nullishArms scope) (m.bind scope)
    (m'.bind scope)

theorem wrapped_method {span : Span} {key : String} {optional : Bool}
    {result result' : Option TypeExpr}
    (hdecl : Option.Rel (List.Forall₂ (TypeParameter.Matches R)) typeParameters typeParameters')
    (hps : List.Forall₂ (Parameter.Matches TypeExpr.AlwaysWrapped) parameters parameters')
    (hresult : Option.Rel TypeExpr.AlwaysWrapped result result') :
    (Member.method span key optional typeParameters parameters result).AlwaysWrapped
      (.method span key optional typeParameters' parameters' result') := by
  intro scope
  unfold Member.bind Member.nullishArms
  rw [← Scope.declareTypeParameters?_matches hdecl]
  cases scope.declareTypeParameters? typeParameters with
  | error e => exact .error (Nat.le_refl 0) e e
  | ok inner =>
    simp only [← bind_assoc]
    exact wrapped_bindField (wrapped_signature hps (wrapped_bindRequired hresult))

instance : Nonempty Field := ⟨⟨"", .unit⟩⟩

theorem wrapped_bindMembers {members members' : List Member} {seen : List Field}
    (h : List.Forall₂ Member.AlwaysWrapped members members') :
    Compiled.Wrapped (nullishArmsInMembers scope members) (nullishArmsInMembers scope members')
      (bindMembers scope seen members) (bindMembers scope seen members') := by
  induction h generalizing seen with
  | nil => exact .refl _
  | cons hm _ ih =>
    unfold nullishArmsInMembers bindMembers
    refine (hm scope).bind (fun field => ?_) ?_
    · split
      · exact .error (@ih seen).le _ _
      · exact ih.map fun _ _ _ _ h => (List.cons.inj h).2
    · intro field field' fields _ _ h h'
      split at h
      · cases h
      · split at h'
        · cases h'
        · obtain ⟨others, _, rfl⟩ := Compiled.map_eq_ok.1 h
          obtain ⟨others', _, h⟩ := Compiled.map_eq_ok.1 h'
          exact (List.cons.inj h).1.symm

end

/-! ## All types -/

mutual

/-- By recursion on the wrapped type. -/
theorem wraps_always : (e' e : TypeExpr) → e.Wraps e' → e.AlwaysWrapped e'
  | .reference _ _ none, _, h => fun scope => by
    cases h with
    | reference h =>
      cases h
      exact ⟨.reference .none, wrapped_reference .none⟩
  | .reference _ _ (some es'), _, h => fun scope => by
    cases h with
    | reference h =>
      cases h with
      | some h =>
        have harguments := wraps_types es' _ h
        refine ⟨.reference (.some h), wrapped_reference (.some ?_)⟩
        exact harguments.imp fun _ _ h => h scope
  | .literal .., _, h => fun scope => by
    cases h with
    | literal => exact ⟨.literal, .refl _⟩
  | .array _ _ element', _, h => fun scope => by
    cases h with
    | array h =>
      refine ⟨.array h, (wraps_always element' _ h scope).binding.map ?_⟩
      intro t t' _ _ heq
      simpa using heq
  | .tuple _ _ elements', _, h => fun scope => by
    cases h with
    | tuple h =>
      have helements := wraps_types elements' _ h
      exact ⟨.tuple h, wrapped_tuple (helements.imp fun _ _ h => h scope)⟩
  | .union _ arms', _, h => fun scope => by
    cases h with
    | union h =>
      have harms := wraps_types arms' _ h
      exact ⟨.union h, TypeExpr.Wrapped.union (harms.imp fun _ _ h => h scope)⟩
  | .function _ _ parameters' result', _, h => fun scope => by
    cases h with
    | function hdecl hps hresult =>
      have hparameters := wraps_parameters parameters' _ hps
      have hresult' := wraps_always result' _ hresult
      exact ⟨.function hdecl hps hresult, wrapped_function hdecl hparameters hresult'⟩
  | .object _ members', _, h => fun scope => by
    cases h with
    | object h =>
      refine ⟨.object h, (wrapped_bindMembers (wraps_members members' _ h)).map ?_⟩
      intro fields fields' _ _ heq
      exact Ty.object.inj heq
  | .parenthesized _ inner', _, h => fun scope => by
    cases h with
    | wrap _ h => exact ⟨.wrap _ h, (wraps_always inner' _ h scope).binding⟩
    | parenthesized h => exact ⟨.parenthesized h, (wraps_always inner' _ h scope).binding⟩
  | .intersection .., _, h => fun scope => ⟨h, by cases h with | intersection => exact .refl _⟩
  | .constructor .., _, h => fun scope => ⟨h, by cases h with | constructor => exact .refl _⟩
  | .indexedAccess .., _, h => fun scope => ⟨h, by cases h with | indexedAccess => exact .refl _⟩
  | .query .., _, h => fun scope => ⟨h, by cases h with | query => exact .refl _⟩
  | .keyOf .., _, h => fun scope => ⟨h, by cases h with | keyOf => exact .refl _⟩
  | .this .., _, h => fun scope => ⟨h, by cases h with | this => exact .refl _⟩
termination_by structural e' => e'

theorem wraps_types : (es' es : List TypeExpr) → List.Forall₂ TypeExpr.Wraps es es' →
    List.Forall₂ TypeExpr.AlwaysWrapped es es'
  | [], _, h => by
    cases h
    exact .nil
  | e' :: es', _, h => by
    cases h with
    | cons he hes => exact .cons (wraps_always e' _ he) (wraps_types es' _ hes)
termination_by structural es' => es'

theorem wraps_type? : (type' type : Option TypeExpr) → Option.Rel TypeExpr.Wraps type type' →
    Option.Rel TypeExpr.AlwaysWrapped type type'
  | none, _, h => by
    cases h
    exact .none
  | some e', _, h => by
    cases h with
    | some h => exact .some (wraps_always e' _ h)
termination_by structural type' => type'

theorem wraps_parameters : (ps' ps : List Parameter) →
    List.Forall₂ (Parameter.Matches TypeExpr.Wraps) ps ps' →
    List.Forall₂ (Parameter.Matches TypeExpr.AlwaysWrapped) ps ps'
  | [], _, h => by
    cases h
    exact .nil
  | ⟨_, _, _, _, type'⟩ :: ps', _, h => by
    cases h with
    | cons hp hps =>
      cases hp with
      | mk htype => exact .cons (.mk (wraps_type? type' _ htype)) (wraps_parameters ps' _ hps)
termination_by structural ps' => ps'

theorem wraps_members : (ms' ms : List Member) →
    List.Forall₂ (Member.Matches TypeExpr.Wraps) ms ms' → List.Forall₂ Member.AlwaysWrapped ms ms'
  | [], _, h => by
    cases h
    exact .nil
  | m' :: ms', _, h => by
    cases h with
    | cons hm hms => exact .cons (wraps_member m' _ hm) (wraps_members ms' _ hms)
termination_by structural ms' => ms'

theorem wraps_member : (m' m : Member) → m.Matches TypeExpr.Wraps m' → m.AlwaysWrapped m'
  | .property _ _ _ _ type', _, h => fun scope => by
    cases h with
    | property h => exact wrapped_bindField (wrapped_bindRequired (wraps_type? type' _ h))
  | .method _ _ _ _ parameters' result', _, h => by
    cases h with
    | method hdecl hps hresult =>
      have hparameters := wraps_parameters parameters' _ hps
      exact wrapped_method hdecl hparameters (wraps_type? result' _ hresult)
  | .call .., _, h => fun scope => by
    cases h with
    | call => exact .refl _
  | .construct .., _, h => fun scope => by
    cases h with
    | construct => exact .refl _
  | .index .., _, h => fun scope => by
    cases h with
    | index => exact .refl _
termination_by structural m' => m'

end

/-- Parentheses never add to the arms of unions that are null or undefined, and they change what a
type is bound to exactly if they take from them: otherwise the type is bound to the same type with
parentheses and without, or to none in both cases. -/
theorem TypeExpr.bind_eq_ok_iff_of_wraps {t t' : TypeExpr} (h : t.Wraps t') (scope : Scope) :
    t'.nullishArms scope ≤ t.nullishArms scope ∧
    ((∀ u, t.bind scope = .ok u ↔ t'.bind scope = .ok u) ↔
      t'.nullishArms scope = t.nullishArms scope ∨
      ¬ (∃ u, t.bind scope = .ok u) ∧ ¬ ∃ u, t'.bind scope = .ok u) := by
  obtain ⟨hle, hsame, hexact⟩ := (wraps_always t' t h scope).binding
  refine ⟨hle, fun hiff => ?_, ?_⟩
  · by_cases hbound : ∃ u, t.bind scope = .ok u
    · obtain ⟨u, hu⟩ := hbound
      exact .inl (hexact u hu ((hiff u).1 hu))
    · refine .inr ⟨hbound, fun hbound' => ?_⟩
      obtain ⟨u, hu⟩ := hbound'
      exact hbound ⟨u, (hiff u).2 hu⟩
  · rintro (hcount | ⟨hnone, hnone'⟩) u
    · exact hsame hcount u
    · exact ⟨fun hu => absurd ⟨u, hu⟩ hnone, fun hu => absurd ⟨u, hu⟩ hnone'⟩

/-- In `(x: string | null) => string[]` both mentions of `string` may be wrapped. -/
theorem TypeExpr.bind_eq_ok_iff_of_wraps_strings :
    let here : Span := ⟨0, 0⟩
    let string := TypeExpr.reference here (.identifier "string") none
    let null := TypeExpr.reference here (.identifier "null") none
    let wrapped := TypeExpr.parenthesized here string
    let taking := fun arm => [Parameter.mk here "x" false false (some (.union here [arm, null]))]
    let plain := TypeExpr.function here none (taking string) (.array here false string)
    let t := TypeExpr.function here none (taking wrapped) (.array here false wrapped)
    plain.Wraps t ∧ t.bind .prelude = .ok
      (.arrow [] [(Ty.named "string").orNullish] (.constructor "array" [.named "string"])) := by
  intro here string null wrapped taking plain t
  have hname : ∀ name, (TypeExpr.reference here name none).Wraps (.reference here name none) :=
    fun name => .reference .none
  have hwrapped : string.Wraps wrapped := .wrap here (hname _)
  have harms : (TypeExpr.union here [string, null]).Wraps (.union here [wrapped, null]) :=
    .union (.cons hwrapped (.cons (hname _) .nil))
  have h : plain.Wraps t := .function .none (.cons (.mk (.some harms)) .nil) (.array hwrapped)
  refine ⟨h, ((bind_eq_ok_iff_of_wraps h .prelude).2.2 (.inl ?_) _).1 ?_⟩
  · decide +kernel
  · decide +kernel

/-- Parentheses around `null` make `string | null` a union of two types that differ. -/
theorem TypeExpr.bind_string_or_wrapped_null :
    let here : Span := ⟨0, 0⟩
    let string := TypeExpr.reference here (.identifier "string") none
    let null := TypeExpr.reference here (.identifier "null") none
    let t := TypeExpr.union here [string, null]
    let t' := TypeExpr.union here [string, .parenthesized here null]
    t.Wraps t' ∧ t.bind .prelude = .ok (Ty.named "string").orNullish ∧
      t'.bind .prelude = here.unsupported .union := by
  intro here string null t t'
  have hname : ∀ name, (TypeExpr.reference here name none).Wraps (.reference here name none) :=
    fun name => .reference .none
  refine ⟨.union (.cons (hname _) (.cons (.wrap here (hname _)) .nil)), ?_⟩
  decide +kernel

end Ambient
