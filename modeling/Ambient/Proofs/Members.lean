import Ambient.Proofs.Recursion
import Mathlib.Data.List.Induction
/-!
# Members and fields

Members are bound to fields one by one, and binding stops at the first member that is not bound or
that is written like a member before it. So members are bound exactly if each of them is and no two
are written alike (`bindMembers_eq_ok_iff`). If only the second fails, the error is about the first
member that repeats an identifier, and names the one member before it that has it
(`bindMembers_eq_error`). The module of an interface has its own type over the fields and a getter
for each of them (`readsEach_interfaceItems`).
-/

namespace Ambient

/-- The identifier that a field is written as. -/
abbrev Field.ident (f : Field) : String := lowerIdent f.name

/-- The identifier that a member is written as. -/
abbrev Member.ident (m : Member) : String := lowerIdent m.key

/-- Every member is bound on its own, to the field at its place. -/
abbrev BindsEach (scope : Scope) (members : List Member) (fields : List Field) : Prop :=
  List.Forall₂ (fun m f => m.bind scope = .ok f) members fields

/-! ## One member after the other -/

section

variable {scope : Scope}

theorem Member.name_of_bind {m : Member} {f : Field} (h : m.bind scope = .ok f) : f.name = m.key :=
  (Member.binds scope m f h).1

theorem BindsEach.map_ident {members : List Member} {fields : List Field}
    (h : BindsEach scope members fields) : fields.map Field.ident = members.map Member.ident := by
  induction h with
  | nil => rfl
  | cons hm _ ih => rw [List.map_cons, List.map_cons, ih, Field.ident, Member.name_of_bind hm]

theorem Compiled.ok_bind {α β : Type} (a : α) (k : α → Compiled β) :
    ((.ok a : Compiled α) >>= k) = k a := rfl

/-- A member that is written like no field before it. -/
theorem bindMembers_cons_of_new {seen : List Field} {m : Member} {f : Field}
    (hm : m.bind scope = .ok f) (hnew : f.ident ∉ seen.map Field.ident) (ms : List Member) :
    bindMembers scope seen (m :: ms) = (f :: ·) <$> bindMembers scope (f :: seen) ms := by
  have hfind : seen.find? (lowerIdent ·.name == lowerIdent f.name) = none := by
    refine List.find?_eq_none.2 fun g hg heq => hnew (List.mem_map.2 ⟨g, hg, ?_⟩)
    simpa using heq
  rw [bindMembers, hm, Compiled.ok_bind, hfind]
  rfl

/-- A member that is written like a field before it. -/
theorem bindMembers_cons_of_seen {seen : List Field} {m : Member} {f g : Field}
    (hm : m.bind scope = .ok f) (hg : g ∈ seen) (hident : g.ident = f.ident)
    (hseen : (seen.map Field.ident).Nodup) (ms : List Member) :
    bindMembers scope seen (m :: ms) = m.span.error (.memberCollision f.name g.name f.ident) := by
  have hfind : seen.find? (lowerIdent ·.name == lowerIdent f.name) = some g := by
    cases hfound : seen.find? (lowerIdent ·.name == lowerIdent f.name) with
    | none => exact absurd (by simpa using hident) (List.find?_eq_none.1 hfound g hg)
    | some g' =>
      have hident' : g'.ident = f.ident := by simpa using List.find?_some hfound
      rw [List.inj_on_of_nodup_map hseen (List.mem_of_find?_eq_some hfound) hg
        (hident'.trans hident.symm)]
  rw [bindMembers, hm, Compiled.ok_bind, hfind]

/-- Members that are bound and written unlike each other and all fields before them. -/
theorem bindMembers_append {before : List Member} {fields : List Field}
    (h : BindsEach scope before fields) {seen : List Field}
    (hnodup : ((fields.reverse ++ seen).map Field.ident).Nodup) (ms : List Member) :
    bindMembers scope seen (before ++ ms)
      = (fields ++ ·) <$> bindMembers scope (fields.reverse ++ seen) ms := by
  induction h generalizing seen with
  | nil => simp
  | @cons m f before fields hm _ ih =>
    rw [List.reverse_cons, List.append_assoc, List.singleton_append] at hnodup ⊢
    have hnew : f.ident ∉ seen.map Field.ident := by
      rw [List.map_append, List.map_cons] at hnodup
      exact (List.nodup_cons.1 hnodup.of_append_right).1
    rw [List.cons_append, bindMembers_cons_of_new hm hnew, ih hnodup, ← comp_map]
    rfl

theorem bindsEach_of_bindMembers {seen : List Field} {members : List Member} {fields : List Field}
    (h : bindMembers scope seen members = .ok fields) : BindsEach scope members fields := by
  induction members generalizing seen fields with
  | nil =>
    obtain rfl := Except.ok.inj h
    exact .nil
  | cons m members ih =>
    rw [bindMembers] at h
    obtain ⟨f, hf, h⟩ := Compiled.bind_eq_ok.1 h
    split at h
    · cases h
    · obtain ⟨others, hothers, rfl⟩ := Compiled.map_eq_ok.1 h
      exact .cons hf (ih hothers)

theorem bindMembers_eq_ok_iff {members : List Member} {fields : List Field} :
    bindMembers scope [] members = .ok fields ↔
      BindsEach scope members fields ∧ (fields.map Field.ident).Nodup := by
  constructor
  · intro h
    exact ⟨bindsEach_of_bindMembers h, (bindMembers_binds scope [] members fields h).distinct⟩
  · rintro ⟨heach, hnodup⟩
    have hreverse : ((fields.reverse ++ []).map Field.ident).Nodup := by simpa using hnodup
    have hall := bindMembers_append heach hreverse []
    rw [List.append_nil] at hall
    rw [hall, bindMembers]
    exact congrArg Except.ok (List.append_nil fields)

/-! ## The first member that repeats an identifier -/

/-- Where a key is repeated, there is a first element that repeats one, and one element before it
that has the same. -/
theorem exists_first_repeat {α β : Type} {key : α → β} {as : List α} (h : ¬ (as.map key).Nodup) :
    ∃ before earlier between later after, as = before ++ earlier :: between ++ later :: after ∧
      ((before ++ earlier :: between).map key).Nodup ∧ key later = key earlier := by
  induction as using List.reverseRecOn with
  | nil => exact absurd List.nodup_nil h
  | append_singleton as a ih =>
    by_cases hfront : (as.map key).Nodup
    · have hmem : key a ∈ as.map key := by
        by_contra hmem
        refine h ?_
        rw [List.map_append, List.map_singleton, ← List.concat_eq_append]
        exact hfront.concat hmem
      obtain ⟨earlier, hearlier, hkey⟩ := List.mem_map.1 hmem
      obtain ⟨before, between, rfl⟩ := List.append_of_mem hearlier
      exact ⟨before, earlier, between, a, [], rfl, hfront, hkey.symm⟩
    · obtain ⟨before, earlier, between, later, after, rfl, hnodup, hkey⟩ := ih hfront
      exact ⟨before, earlier, between, later, after ++ [a], by simp, hnodup, hkey⟩

/-- The member `later` is written like `earlier` and is the first that is written like one before
it. Whatever comes behind it, the error is about the two. -/
theorem bindMembers_eq_error {before between : List Member} {earlier later : Member}
    {fields : List Field} {f : Field}
    (heach : BindsEach scope (before ++ earlier :: between) fields)
    (hnodup : ((before ++ earlier :: between).map Member.ident).Nodup)
    (hlater : later.bind scope = .ok f) (hident : later.ident = earlier.ident)
    (after : List Member) :
    bindMembers scope [] (before ++ earlier :: between ++ later :: after)
      = later.span.error (.memberCollision later.key earlier.key later.ident) := by
  have hfields : (fields.map Field.ident).Nodup := by rwa [heach.map_ident]
  have hreverse : (fields.reverse.map Field.ident).Nodup := by
    rwa [List.map_reverse, List.nodup_reverse]
  have hmem : earlier ∈ before ++ earlier :: between := by simp
  obtain ⟨k, hk⟩ := List.getElem?_of_mem hmem
  obtain ⟨g, hg, hbind⟩ := exists_right_of_forall₂ heach hk
  have hseen : g.ident = f.ident := by
    rw [Field.ident, Field.ident, Member.name_of_bind hbind, Member.name_of_bind hlater]
    exact hident.symm
  have hstop := bindMembers_cons_of_seen hlater
    (List.mem_reverse.2 (List.mem_of_getElem? hg)) hseen hreverse after
  rw [bindMembers_append heach (by rwa [List.append_nil]), List.append_nil, hstop, Field.ident,
    Member.name_of_bind hbind, Member.name_of_bind hlater]
  rfl

end

/-! ## The module of an interface -/

/-- The external reads the member `m`, whose field is `f`, from a value of the own type of an
interface with the type parameters `vs`. -/
structure Extern.Reads (vs : List String) (m : Member) (f : Field) (e : Extern) : Prop where
  isGetter : e.isGetter
  sourceName : e.sourceName = m.key
  type : e.type = .arrow [] [.constructor selfType (vs.map .variable)] f.type
  isVariadic : e.isVariadic = false

/-- The items are the declaration of the own type of an interface over the fields, and behind it a
getter for each of the members, in order and written unlike each other. -/
def ReadsEach (vs : List String) (members : List Member) (fields : List Field)
    (items : List Item) : Prop :=
  ∃ getters : List Extern,
    items = .typeDeclaration ⟨false, selfType, vs, .object fields⟩ :: getters.map .external ∧
    getters.length = members.length ∧
    (∀ (i : Nat) (m : Member) (f : Field) (e : Extern), members[i]? = some m →
      fields[i]? = some f → getters[i]? = some e → e.Reads vs m f) ∧
    (getters.map (lowerIdent ·.name)).Nodup

/-- The external of a getter. -/
def Field.getterExtern (self : Ty) (f : Field) : Extern :=
  ⟨none, false, f.name, .arrow [] [self] f.type, true, false⟩

theorem readsEach_interfaceItems {scope : Scope} {members : List Member} {fields : List Field}
    (h : bindMembers scope [] members = .ok fields) (vs : List String) :
    ReadsEach vs members fields (interfaceItems vs fields) := by
  obtain ⟨heach, hnodup⟩ := bindMembers_eq_ok_iff.1 h
  let self : Ty := .constructor selfType (vs.map .variable)
  refine ⟨fields.map (Field.getterExtern self), ?_, ?_, fun i m f e hm hf he => ?_, ?_⟩
  · rw [interfaceItems, List.map_map]
    rfl
  · rw [List.length_map, heach.length_eq]
  · obtain ⟨f', hf', hbind⟩ := exists_right_of_forall₂ heach hm
    obtain rfl := Option.some.inj (hf.symm.trans hf')
    rw [List.getElem?_map, hf] at he
    obtain rfl := Option.some.inj he
    exact ⟨rfl, Member.name_of_bind hbind, rfl, rfl⟩
  · rw [List.map_map]
    exact hnodup

/-- Members that are bound have fields for them one by one, under their keys and written unlike each
other. If each member is bound but some are written alike, the error is about the first that repeats
an identifier and the one before it. The module of an interface declares its own type over the
fields and reads each of them. -/
theorem members_faithful (scope : Scope) :
    (∀ members fields, bindMembers scope [] members = .ok fields →
      fields.length = members.length ∧
      (∀ (i : Nat) (m : Member) (f : Field), members[i]? = some m → fields[i]? = some f →
        f.name = m.key) ∧
      (fields.map (lowerIdent ·.name)).Nodup) ∧
    (∀ members fields, BindsEach scope members fields → ¬ (fields.map (lowerIdent ·.name)).Nodup →
      ∃ before earlier between later after,
        members = before ++ earlier :: between ++ later :: after ∧
        ((before ++ earlier :: between).map (lowerIdent ·.key)).Nodup ∧
        lowerIdent later.key = lowerIdent earlier.key ∧
        bindMembers scope [] members = later.span.error
          (.memberCollision later.key earlier.key (lowerIdent later.key))) ∧
    (∀ (x : Interface) item entry, x.compile scope = .ok (item, entry) →
      ∃ inner vs fields items,
        scope.declareTypeParameters (x.typeParameters.getD []) = .ok (inner, vs) ∧
        bindMembers (x.bodyScope inner vs) [] x.members = .ok fields ∧
        item = .submodule x.name items ∧ ReadsEach vs x.members fields items) := by
  refine ⟨fun members fields h => ?_, fun members fields heach hrepeat => ?_,
    fun x item entry h => ?_⟩
  · obtain ⟨heach, hnodup⟩ := bindMembers_eq_ok_iff.1 h
    refine ⟨heach.length_eq.symm, fun i m f hm hf => ?_, hnodup⟩
    obtain ⟨f', hf', hbind⟩ := exists_right_of_forall₂ heach hm
    obtain rfl := Option.some.inj (hf.symm.trans hf')
    exact Member.name_of_bind hbind
  · have hidents : ¬ (members.map Member.ident).Nodup := by rwa [← heach.map_ident]
    obtain ⟨before, earlier, between, later, after, rfl, hnodup, hident⟩ :=
      exists_first_repeat hidents
    refine ⟨before, earlier, between, later, after, rfl, hnodup, hident, ?_⟩
    have hbefore := List.forall₂_take (before ++ earlier :: between).length heach
    have hbehind := List.forall₂_drop (before ++ earlier :: between).length heach
    rw [List.take_left] at hbefore
    rw [List.drop_left] at hbehind
    obtain ⟨f, _, hlater, -, -⟩ := List.forall₂_cons_left_iff.1 hbehind
    exact bindMembers_eq_error hbefore hnodup hlater hident after
  · obtain ⟨inner, vs, fields, hdecl, hitem, hfields⟩ := Interface.exists_fields h
    exact ⟨inner, vs, fields, _, hdecl, hfields, hitem, readsEach_interfaceItems hfields vs⟩

/-- `"a-b"` and `c` are bound to fields of their own, also in an interface with a type parameter,
but `a_b` behind them is written like the first. -/
theorem members_faithful_dashed :
    let here : Span := ⟨0, 0⟩
    let string := TypeExpr.reference here (.identifier "string") none
    let dashed := Member.property ⟨0, 5⟩ false "a-b" false (some string)
    let other := Member.property ⟨6, 7⟩ false "c" true (some string)
    let plain := Member.property ⟨8, 11⟩ false "a_b" false (some string)
    let x : Interface :=
      ⟨here, .none, here, "I", some [⟨here, "v", none, none⟩], [], [dashed, other]⟩
    (∃ fields, bindMembers .prelude [] [dashed, other] = .ok fields ∧ fields.length = 2 ∧
      (fields.map (lowerIdent ·.name)).Nodup) ∧
    (∃ fields, BindsEach .prelude [dashed, other, plain] fields ∧
      ¬ (fields.map (lowerIdent ·.name)).Nodup) ∧
    (∃ earlier later : Member, bindMembers .prelude [] [dashed, other, plain] = later.span.error
      (.memberCollision later.key earlier.key (lowerIdent later.key))) ∧
    ∃ item entry, x.compile .prelude = .ok (item, entry) ∧ ∃ vs fields items,
      item = .submodule "I" items ∧ ReadsEach vs [dashed, other] fields items := by
  intro here string dashed other plain x
  obtain ⟨hbound, hrepeat, hinterface⟩ := members_faithful .prelude
  have hfields : bindMembers .prelude [] [dashed, other] =
      .ok [⟨"a-b", .named "string"⟩, ⟨"c", (Ty.named "string").orUndefined⟩] := rfl
  have heach : BindsEach .prelude [dashed, other, plain] [⟨"a-b", .named "string"⟩,
      ⟨"c", (Ty.named "string").orUndefined⟩, ⟨"a_b", .named "string"⟩] :=
    .cons rfl (.cons rfl (.cons rfl .nil))
  have hdistinct : ¬ (["a-b", "c", "a_b"].map lowerIdent).Nodup := by decide +kernel
  obtain ⟨hlength, -, hnodup⟩ := hbound _ _ hfields
  obtain ⟨_, earlier, _, later, _, -, -, -, herror⟩ := hrepeat _ _ heach hdistinct
  have hcompile : x.compile .prelude = .ok (.submodule "I" (interfaceItems ["v"]
      [⟨"a-b", .named "string"⟩, ⟨"c", (Ty.named "string").orUndefined⟩]), .interface "I" 1) := by
    decide +kernel
  obtain ⟨_, vs, fields, items, -, -, hitem, hreads⟩ := hinterface _ _ _ hcompile
  exact ⟨⟨_, hfields, hlength, hnodup⟩, ⟨_, heach, hdistinct⟩, ⟨earlier, later, herror⟩,
    _, _, hcompile, vs, fields, items, hitem, hreads⟩

end Ambient
