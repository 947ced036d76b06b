import Ambient.Proofs.Unions
/-!
# Parts of types

The binding of a type is put together from the bindings of its parts (`Part.Child`), and those of
the parts further inside (`Part.Within`). Where a type is bound, all of its parts are, each in the
scope that it stands in; and what is inherited from a type by the types it is made of holds of the
types of its parts, apart from arms of unions that are left out (`Part.BoundTo.child`).
-/

namespace Ambient

/-- The second part is bound on the way to the binding of the first. Each stands in the scope before
it. -/
inductive Part.Child : Scope → Part → Scope → Part → Prop
  | argument {c span name arguments e} :
    e ∈ arguments.getD [] →
    Child c (.type (.reference span name arguments)) c (.type e)
  | element {c span readonly e} : Child c (.type (.array span readonly e)) c (.type e)
  | component {c span readonly elements e} :
    e ∈ elements →
    Child c (.type (.tuple span readonly elements)) c (.type e)
  | arm {c span arms e} : e ∈ arms → Child c (.type (.union span arms)) c (.type e)
  | inner {c span e} : Child c (.type (.parenthesized span e)) c (.type e)
  | function {c span typeParameters parameters result} :
    Child c (.type (.function span typeParameters parameters result)) c
      (.signature (typeParameters.getD []) parameters result)
  | member {c span members m} : m ∈ members → Child c (.type (.object span members)) c (.member m)
  | property {c span readonly key optional e} :
    Child c (.member (.property span readonly key optional (some e))) c (.type e)
  | method {c span key optional typeParameters parameters result} :
    Child c (.member (.method span key optional typeParameters parameters (some result))) c
      (.signature (typeParameters.getD []) parameters result)
  | passed {c typeParameters parameters result inner vs p} :
    c.declareTypeParameters typeParameters = .ok (inner, vs) →
    p ∈ passed parameters →
    Child c (.signature typeParameters parameters result) inner (.parameter p)
  | result {c typeParameters parameters result inner vs} :
    c.declareTypeParameters typeParameters = .ok (inner, vs) →
    Child c (.signature typeParameters parameters result) inner (.type result)
  | parameter {c p e} : p.type = some e → Child c (.parameter p) c (.type e)

/-- The second part is the first or stands inside it. -/
inductive Part.Within : Scope → Part → Scope → Part → Prop
  | refl {c part} : Within c part c part
  | child {c part c' part' c'' part''} :
    Child c part c' part' →
    Within c' part' c'' part'' →
    Within c part c'' part''

/-- A part is bound to a type. -/
def Part.BoundTo (c : Scope) : Part → Ty → Prop
  | .type e, t => e.bind c = .ok t
  | .parameter p, t => ∃ e u, p.type = some e ∧ e.bind c = .ok u ∧ t = u.optionally p.optional
  | .signature typeParameters parameters result, t => ∃ inner vs owner bound u,
    c.declareTypeParameters typeParameters = .ok (inner, vs) ∧
    bindParameters inner owner parameters = .ok bound ∧ result.bind inner = .ok u ∧
    t = (BoundSignature.make vs bound u).type
  | .member m, t => ∃ field, m.bind c = .ok field ∧ t = field.type

/-! ## Lists of parts -/

section

variable {c : Scope}

theorem exists_of_bindTypes {es : List TypeExpr} {ts : List Ty} (h : bindTypes c es = .ok ts)
    {e : TypeExpr} (he : e ∈ es) : ∃ t ∈ ts, e.bind c = .ok t := by
  induction es generalizing ts with
  | nil => cases he
  | cons e' es ih =>
    unfold bindTypes at h
    obtain ⟨t, ht, h⟩ := Compiled.bind_eq_ok.1 h
    obtain ⟨others, hothers, rfl⟩ := Compiled.map_eq_ok.1 h
    rcases List.mem_cons.1 he with rfl | he
    · exact ⟨t, List.mem_cons_self, ht⟩
    · obtain ⟨u, hu, hbind⟩ := ih hothers he
      exact ⟨u, List.mem_cons_of_mem t hu, hbind⟩

theorem exists_of_bindMembers {ms : List Member} {seen fields : List Field}
    (h : bindMembers c seen ms = .ok fields) {m : Member} (hm : m ∈ ms) :
    ∃ field ∈ fields, m.bind c = .ok field := by
  induction ms generalizing seen fields with
  | nil => cases hm
  | cons m' ms ih =>
    unfold bindMembers at h
    obtain ⟨field, hfield, h⟩ := Compiled.bind_eq_ok.1 h
    split at h
    · cases h
    · obtain ⟨others, hothers, rfl⟩ := Compiled.map_eq_ok.1 h
      rcases List.mem_cons.1 hm with rfl | hm
      · exact ⟨field, List.mem_cons_self, hfield⟩
      · obtain ⟨other, hother, hbind⟩ := ih hothers hm
        exact ⟨other, List.mem_cons_of_mem field hother, hbind⟩

theorem exists_of_bindParameters {owner : SignatureOwner} {ps : List Parameter}
    {bound : BoundParameters} (h : bindParameters c owner ps = .ok bound) {p : Parameter}
    (hp : p ∈ passed ps) : ∃ t ∈ bound.types, Part.BoundTo c (.parameter p) t := by
  induction ps generalizing bound with
  | nil => cases hp
  | cons p' ps ih =>
    obtain ⟨span, name, optional, rest, type⟩ := p'
    unfold bindParameters at h
    unfold passed at hp
    by_cases hthis : name == "this"
    · rw [if_pos hthis] at h
      rw [List.filter_cons_of_neg (by simpa [bne] using hthis)] at hp
      exact ih h hp
    · rw [if_neg hthis] at h
      rw [List.filter_cons_of_pos (by simpa [bne] using hthis)] at hp
      obtain ⟨t, ht, h⟩ := Compiled.bind_eq_ok.1 h
      split at h
      · cases h
      · obtain ⟨others, hothers, rfl⟩ := Compiled.map_eq_ok.1 h
        rcases List.mem_cons.1 hp with rfl | hp
        · cases type with
          | none => cases ht
          | some e => exact ⟨_, List.mem_cons_self, e, t, rfl, ht, rfl⟩
        · obtain ⟨u, hu, hbound⟩ := ih hothers hp
          exact ⟨u, List.mem_cons_of_mem _ hu, hbound⟩

/-- Null and undefined are bound. -/
theorem Scope.Nullish.exists_bind {e : TypeExpr} (h : c.Nullish e) : ∃ t, e.bind c = .ok t := by
  obtain ⟨span, name, rfl, hname | hname⟩ := h
  · exact ⟨_, by simp [TypeExpr.bind, Scope.resolve, hname]; rfl⟩
  · exact ⟨_, by simp [TypeExpr.bind, Scope.resolve, hname]; rfl⟩

/-- An arm of a union that is bound is null or undefined, or is bound to the type of the union
itself or as what is made nullable. -/
theorem exists_of_bind_union {span : Span} {arms : List TypeExpr} {t : Ty}
    (h : (TypeExpr.union span arms).bind c = .ok t) {e : TypeExpr} (he : e ∈ arms) :
    ∃ u, e.bind c = .ok u ∧ (c.Nullish e ∨ t = u ∨ t = u.orNullish) := by
  by_cases hnullish : c.Nullish e
  · obtain ⟨u, hu⟩ := hnullish.exists_bind
    exact ⟨u, hu, .inl hnullish⟩
  · by_cases hany : ∃ a ∈ arms, c.Nullish a
    · obtain ⟨arm, u, harm, hu, rfl⟩ := (TypeExpr.bind_union_of_nullish hany).1 h
      have hproper : e ∈ c.proper arms := Scope.mem_proper.2 ⟨he, hnullish⟩
      rw [harm, List.mem_singleton] at hproper
      exact ⟨u, hproper ▸ hu, .inr (.inr rfl)⟩
    · have hnone : ∀ a ∈ arms, ¬ c.Nullish a := by simpa using hany
      exact ⟨t, ((TypeExpr.bind_union_of_proper hnone).1 h).2 e he, .inr (.inl rfl)⟩

end

/-! ## From parts to their parts -/

namespace Part

variable {c c' : Scope} {part part' : Part} {t : Ty}

/-- The signature of a function or a method that is bound. -/
theorem boundTo_signature {typeParameters : Option (List TypeParameter)} {ps : List Parameter}
    {owner : SignatureOwner} {result : TypeExpr}
    (h : (do
      let (inner, quantified) ← c.declareTypeParameters? typeParameters
      let parameters ← bindParameters inner owner ps
      let result ← result.bind inner
      (BoundSignature.make quantified parameters result).plainType) = .ok t) :
    BoundTo c (.signature (typeParameters.getD []) ps result) t := by
  obtain ⟨⟨inner, vs⟩, hdecl, h⟩ := Compiled.bind_eq_ok.1 h
  obtain ⟨bound, hbound, h⟩ := Compiled.bind_eq_ok.1 h
  obtain ⟨u, hu, h⟩ := Compiled.bind_eq_ok.1 h
  exact ⟨inner, vs, owner, bound, u, hdecl, hbound, hu, (BoundSignature.plainType_eq_ok h).2⟩

theorem BoundTo.child (h : BoundTo c part t) (hchild : Child c part c' part') :
    ∃ t', BoundTo c' part' t' ∧ ((∃ e, part' = .type e ∧ c'.Nullish e) ∨
      ∀ P, Scope.discipline.Inherits P → P t → P t') := by
  cases hchild with
  | @argument span name arguments e he =>
    rw [BoundTo, TypeExpr.bind] at h
    obtain ⟨entry, hentry, h⟩ := Compiled.bind_eq_ok.1 h
    obtain ⟨ts, hts, rfl⟩ := Compiled.map_eq_ok.1 h
    obtain ⟨_, _, hlookup, harity, hhidden⟩ := Scope.resolve_eq_ok hentry
    cases arguments with
    | none => cases he
    | some es =>
      obtain ⟨u, hu, hbind⟩ := exists_of_bindTypes hts he
      refine ⟨u, hbind, .inr fun P hP ht => hP.refers ⟨entry, hlookup, ?_, hhidden, rfl⟩ ht u hu⟩
      rw [← harity, ← (bindArguments_binds c (some es) ts hts).1]
  | element =>
    rw [BoundTo, TypeExpr.bind] at h
    obtain ⟨u, hu, rfl⟩ := Compiled.map_eq_ok.1 h
    exact ⟨u, hu, .inr fun P hP => hP.array⟩
  | component he =>
    rw [BoundTo, TypeExpr.bind] at h
    split at h
    · cases h
    · obtain ⟨ts, hts, rfl⟩ := Compiled.map_eq_ok.1 h
      obtain ⟨u, hu, hbind⟩ := exists_of_bindTypes hts he
      exact ⟨u, hbind, .inr fun P hP ht => hP.tuple ht u hu⟩
  | @arm span arms e he =>
    obtain ⟨u, hu, hnullish | rfl | rfl⟩ := exists_of_bind_union h he
    · exact ⟨u, hu, .inl ⟨e, rfl, hnullish⟩⟩
    · exact ⟨t, hu, .inr fun P hP ht => ht⟩
    · exact ⟨u, hu, .inr fun P hP => hP.nullish⟩
  | inner =>
    rw [BoundTo, TypeExpr.bind] at h
    exact ⟨t, h, .inr fun P hP ht => ht⟩
  | function =>
    rw [BoundTo, TypeExpr.bind] at h
    exact ⟨t, boundTo_signature h, .inr fun P hP ht => ht⟩
  | member hm =>
    rw [BoundTo, TypeExpr.bind] at h
    obtain ⟨fields, hfields, rfl⟩ := Compiled.map_eq_ok.1 h
    obtain ⟨field, hfield, hbind⟩ := exists_of_bindMembers hfields hm
    exact ⟨field.type, ⟨field, hbind, rfl⟩, .inr fun P hP ht => hP.object ht field hfield⟩
  | property =>
    obtain ⟨field, hfield, rfl⟩ := h
    unfold Member.bind at hfield
    obtain ⟨u, hu, hfield⟩ := Compiled.bind_eq_ok.1 hfield
    obtain ⟨-, rfl⟩ := bindField_eq_ok hfield
    exact ⟨u, hu, .inr fun P hP => hP.optionally⟩
  | method =>
    obtain ⟨field, hfield, rfl⟩ := h
    unfold Member.bind at hfield
    simp only [← bind_assoc] at hfield
    obtain ⟨u, hu, hfield⟩ := Compiled.bind_eq_ok.1 hfield
    obtain ⟨-, rfl⟩ := bindField_eq_ok hfield
    exact ⟨u, boundTo_signature hu, .inr fun P hP => hP.optionally⟩
  | passed hdecl hp =>
    obtain ⟨inner, vs, owner, bound, u, hdecl', hbound, -, rfl⟩ := h
    cases hdecl.symm.trans hdecl'
    obtain ⟨v, hv, hboundTo⟩ := exists_of_bindParameters hbound hp
    refine ⟨v, hboundTo, .inr fun P hP ht => (hP.arrow ht).1 v ?_⟩
    simpa [BoundSignature.make, List.ne_nil_of_mem hv] using hv
  | result hdecl =>
    obtain ⟨inner, vs, owner, bound, u, hdecl', -, hu, rfl⟩ := h
    cases hdecl.symm.trans hdecl'
    exact ⟨u, hu, .inr fun P hP ht => (hP.arrow ht).2⟩
  | parameter htype =>
    obtain ⟨e, u, htype', hu, rfl⟩ := h
    cases htype.symm.trans htype'
    exact ⟨u, hu, .inr fun P hP => hP.optionally⟩

end Part

end Ambient
