import Ambient.Proofs.Binds
import Mathlib.Data.List.Basic
/-!
# How unions are bound

The arms of a union are looked at in order, and binding stops at the first one that does not fit.
What comes out does not depend on the order: either one arm is bound and all others are null or
undefined (`TypeExpr.bind_union_of_nullish`), or no arm is null or undefined and all are bound to the
same type (`TypeExpr.bind_union_of_proper`). So the arms may be put in any order, and arms that are
null or undefined may be repeated or left out as long as there is one (`Scope.Reshuffles`).
-/

namespace Ambient

namespace Scope

/-- Null or undefined: a plain name without type arguments that means the built-in type. -/
def Nullish (scope : Scope) (e : TypeExpr) : Prop :=
  ∃ span name, e = .reference span (.identifier name) none ∧
    (scope.lookup name = some (.builtIn .null) ∨ scope.lookup name = some (.builtIn .undefined))

theorem isNullish_iff {scope : Scope} {e : TypeExpr} : scope.isNullish e ↔ scope.Nullish e := by
  constructor
  · intro h
    unfold isNullish at h
    split at h
    · rename_i span name
      split at h
      · exact ⟨span, name, rfl, .inl ‹_›⟩
      · exact ⟨span, name, rfl, .inr ‹_›⟩
      · cases h
    · cases h
  · rintro ⟨span, name, rfl, h | h⟩
    · simp [isNullish, h]
    · simp [isNullish, h]

/-- Of the arms, `arm` and no other is neither null nor undefined. -/
def OnlyProper (scope : Scope) (arms : List TypeExpr) (arm : TypeExpr) : Prop :=
  ∃ before after, arms = before ++ arm :: after ∧ ¬ scope.Nullish arm ∧
    ∀ a ∈ before ++ after, scope.Nullish a

/-- The arms that are neither null nor undefined. -/
def proper (scope : Scope) (arms : List TypeExpr) : List TypeExpr :=
  arms.filter (!scope.isNullish ·)

theorem mem_proper {scope : Scope} {arms : List TypeExpr} {a : TypeExpr} :
    a ∈ scope.proper arms ↔ a ∈ arms ∧ ¬ scope.Nullish a := by
  simp [proper, ← isNullish_iff]

theorem proper_eq_nil_iff {scope : Scope} {arms : List TypeExpr} :
    scope.proper arms = [] ↔ ∀ a ∈ arms, scope.Nullish a := by
  simp [proper, List.filter_eq_nil_iff, isNullish_iff]

theorem proper_eq_singleton_iff {scope : Scope} {arms : List TypeExpr} {arm : TypeExpr} :
    scope.proper arms = [arm] ↔ scope.OnlyProper arms arm := by
  unfold proper OnlyProper
  rw [List.filter_eq_cons_iff]
  constructor
  · rintro ⟨before, after, rfl, hbefore, harm, hafter⟩
    refine ⟨before, after, rfl, by simpa [← isNullish_iff] using harm, ?_⟩
    rw [List.forall_mem_append]
    exact ⟨by simpa [← isNullish_iff] using hbefore, proper_eq_nil_iff.1 hafter⟩
  · rintro ⟨before, after, rfl, harm, hothers⟩
    rw [List.forall_mem_append] at hothers
    refine ⟨before, after, rfl, ?_, ?_, proper_eq_nil_iff.2 hothers.2⟩
    · simpa [isNullish_iff] using hothers.1
    · simpa [← isNullish_iff] using harm

end Scope

/-! ## What the loops over the arms answer -/

section

variable {scope : Scope} {span : Span}

theorem bindSame_eq_ok_iff {t u : Ty} {arms : List TypeExpr} :
    bindSame scope span u arms = .ok t ↔ t = u ∧ ∀ a ∈ arms, a.bind scope = .ok u := by
  induction arms with
  | nil =>
    unfold bindSame
    simp [eq_comm]
  | cons a as ih =>
    unfold bindSame
    rw [Compiled.bind_eq_ok, List.forall_mem_cons]
    constructor
    · rintro ⟨other, ha, h⟩
      split at h
      · rename_i heq
        obtain ⟨ht, has⟩ := ih.1 h
        exact ⟨ht, heq ▸ ha, has⟩
      · cases h
    · rintro ⟨ht, ha, has⟩
      refine ⟨u, ha, ?_⟩
      rw [if_pos rfl]
      exact ih.2 ⟨ht, has⟩

theorem bindAlike_eq_ok_iff {t : Ty} {arms : List TypeExpr} :
    bindAlike scope span arms = .ok t ↔ arms ≠ [] ∧ ∀ a ∈ arms, a.bind scope = .ok t := by
  cases arms with
  | nil =>
    unfold bindAlike
    simp [Span.unsupported, Span.error]
  | cons a as =>
    unfold bindAlike
    rw [Compiled.bind_eq_ok, List.forall_mem_cons]
    constructor
    · rintro ⟨u, ha, h⟩
      obtain ⟨rfl, has⟩ := bindSame_eq_ok_iff.1 h
      exact ⟨by simp, ha, has⟩
    · rintro ⟨-, ha, has⟩
      exact ⟨t, ha, bindSame_eq_ok_iff.2 ⟨rfl, has⟩⟩

theorem bindProper_eq {arms others : List TypeExpr} {arm : TypeExpr}
    (h : scope.proper arms = arm :: others) : bindProper scope span arms = arm.bind scope := by
  induction arms with
  | nil => cases h
  | cons a as ih =>
    unfold bindProper
    unfold Scope.proper at h
    by_cases ha : scope.isNullish a
    · rw [if_pos ha]
      rw [List.filter_cons_of_neg (by simpa using ha)] at h
      exact ih h
    · rw [if_neg ha]
      rw [List.filter_cons_of_pos (by simpa using ha)] at h
      rw [(List.cons.inj h).1]

namespace TypeExpr

variable {t : Ty} {arms : List TypeExpr}

theorem bind_union_of_nullish (hany : ∃ a ∈ arms, scope.Nullish a) :
    (TypeExpr.union span arms).bind scope = .ok t ↔
      ∃ arm u, scope.proper arms = [arm] ∧ arm.bind scope = .ok u ∧ t = u.orNullish := by
  rw [TypeExpr.bind, if_pos (by simpa [Scope.isNullish_iff] using hany)]
  change (if (scope.proper arms).length = 1 then _ else _) = _ ↔ _
  by_cases hone : (scope.proper arms).length = 1
  · rw [if_pos hone, Compiled.bind_eq_ok]
    obtain ⟨arm, harm⟩ := List.length_eq_one_iff.1 hone
    rw [bindProper_eq harm, harm]
    constructor
    · rintro ⟨u, hu, h⟩
      exact ⟨arm, u, rfl, hu, (Except.ok.inj h).symm⟩
    · rintro ⟨_, u, ⟨⟩, hu, rfl⟩
      exact ⟨u, hu, rfl⟩
  · rw [if_neg hone]
    constructor
    · intro h
      cases h
    · rintro ⟨arm, u, harm, -⟩
      exact absurd (by rw [harm]; rfl) hone

theorem bind_union_of_proper (hnone : ∀ a ∈ arms, ¬ scope.Nullish a) :
    (TypeExpr.union span arms).bind scope = .ok t ↔
      arms ≠ [] ∧ ∀ a ∈ arms, a.bind scope = .ok t := by
  rw [TypeExpr.bind, if_neg (by simpa [Scope.isNullish_iff] using hnone), bindAlike_eq_ok_iff]

end TypeExpr

end

/-! ## Reordering arms -/

/-- The arms in another order, with arms that are null or undefined repeated or, if there are others
like that, left out. -/
inductive Scope.Reshuffles (scope : Scope) : List TypeExpr → List TypeExpr → Prop
  | perm {arms arms' : List TypeExpr} : arms.Perm arms' → Reshuffles scope arms arms'
  | repeated {arm : TypeExpr} {arms : List TypeExpr} : scope.Nullish arm → arm ∈ arms →
    Reshuffles scope arms (arm :: arms)
  | leftOut {arm : TypeExpr} {arms : List TypeExpr} : scope.Nullish arm →
    (∃ a ∈ arms, scope.Nullish a) → Reshuffles scope (arm :: arms) arms
  | trans {arms arms' arms'' : List TypeExpr} : Reshuffles scope arms arms' →
    Reshuffles scope arms' arms'' → Reshuffles scope arms arms''

namespace Scope.Reshuffles

variable {scope : Scope} {arms arms' : List TypeExpr}

theorem proper_perm (h : scope.Reshuffles arms arms') :
    (scope.proper arms).Perm (scope.proper arms') := by
  have hskip : ∀ {arm : TypeExpr} {arms : List TypeExpr}, scope.Nullish arm →
      scope.proper (arm :: arms) = scope.proper arms := by
    intro arm arms harm
    exact List.filter_cons_of_neg (by simpa using isNullish_iff.2 harm)
  induction h with
  | perm h => exact h.filter _
  | repeated harm _ =>
    rw [hskip harm]
  | leftOut harm _ =>
    rw [hskip harm]
  | trans _ _ ih ih' => exact ih.trans ih'

theorem nullish_iff (h : scope.Reshuffles arms arms') :
    (∃ a ∈ arms, scope.Nullish a) ↔ ∃ a ∈ arms', scope.Nullish a := by
  induction h with
  | perm h =>
    simp only [h.mem_iff]
  | @repeated arm arms harm hmem =>
    constructor
    · rintro ⟨a, ha, hnullish⟩
      exact ⟨a, List.mem_cons_of_mem _ ha, hnullish⟩
    · intro _
      exact ⟨arm, hmem, harm⟩
  | @leftOut arm arms harm hothers =>
    constructor
    · intro _
      exact hothers
    · intro _
      exact ⟨arm, List.mem_cons_self, harm⟩
  | trans _ _ ih ih' => exact ih.trans ih'

/-- Without arms that are null or undefined only the order changes. -/
theorem mem_iff (h : scope.Reshuffles arms arms') (hnone : ∀ a ∈ arms, ¬ scope.Nullish a)
    (hnone' : ∀ a ∈ arms', ¬ scope.Nullish a) {a : TypeExpr} : a ∈ arms ↔ a ∈ arms' := by
  have hmem := h.proper_perm.mem_iff (a := a)
  rw [mem_proper, mem_proper] at hmem
  constructor
  · intro ha
    exact (hmem.1 ⟨ha, hnone a ha⟩).1
  · intro ha
    exact (hmem.2 ⟨ha, hnone' a ha⟩).1

end Scope.Reshuffles

/-- A union with arms is bound in two cases only. With arms that are null or undefined, exactly one
arm is something else, and its type made nullable is the type of the union. Without, all arms are
bound to the type of the union. So its type is the same after any reshuffling of the arms. -/
theorem TypeExpr.bind_union_exact (scope : Scope) (span : Span) {arms : List TypeExpr}
    (hne : arms ≠ []) (t : Ty) :
    ((TypeExpr.union span arms).bind scope = .ok t ↔
      ((∃ a ∈ arms, scope.Nullish a) ∧ ∃ arm u, scope.OnlyProper arms arm ∧
        arm.bind scope = .ok u ∧ t = u.orNullish) ∨
      ((∀ a ∈ arms, ¬ scope.Nullish a) ∧ ∀ a ∈ arms, a.bind scope = .ok t)) ∧
    ∀ arms', scope.Reshuffles arms arms' → ∀ span',
      ((TypeExpr.union span arms).bind scope = .ok t ↔
        (TypeExpr.union span' arms').bind scope = .ok t) := by
  by_cases hany : ∃ a ∈ arms, scope.Nullish a
  · have hall : ¬ ∀ a ∈ arms, ¬ scope.Nullish a := by simpa using hany
    constructor
    · simp only [bind_union_of_nullish hany, Scope.proper_eq_singleton_iff, hany, hall, true_and,
        false_and, or_false]
    · intro arms' h span'
      have hproper : ∀ arm, scope.proper arms = [arm] ↔ scope.proper arms' = [arm] := by
        intro arm
        rw [← List.perm_singleton, ← List.perm_singleton]
        exact ⟨h.proper_perm.symm.trans, h.proper_perm.trans⟩
      simp only [bind_union_of_nullish hany, bind_union_of_nullish (h.nullish_iff.1 hany), hproper]
  · have hnone : ∀ a ∈ arms, ¬ scope.Nullish a := by simpa using hany
    constructor
    · simp only [bind_union_of_proper hnone, hany, false_and, false_or]
      exact ⟨fun h => ⟨hnone, h.2⟩, fun h => ⟨hne, h.2⟩⟩
    · intro arms' h span'
      have hnone' : ∀ a ∈ arms', ¬ scope.Nullish a := by
        simpa using (not_congr h.nullish_iff).1 hany
      have hmem : ∀ a, a ∈ arms ↔ a ∈ arms' := fun a => h.mem_iff hnone hnone'
      simp only [bind_union_of_proper hnone, bind_union_of_proper hnone', ne_eq,
        List.eq_nil_iff_forall_not_mem, hmem]

/-- `null | string[] | undefined` has the type of `null | null | string[]`. -/
theorem TypeExpr.bind_union_exact_nullableStrings :
    let here : Span := ⟨0, 0⟩
    let null := TypeExpr.reference here (.identifier "null") none
    let undefined := TypeExpr.reference here (.identifier "undefined") none
    let strings := TypeExpr.array here false (.reference here (.identifier "string") none)
    Scope.prelude.Reshuffles [null, strings, undefined] [null, null, strings] ∧
      (TypeExpr.union here [null, null, strings]).bind .prelude =
        .ok (Ty.constructor "array" [.named "string"]).orNullish := by
  intro here null undefined strings
  have hnull : Scope.prelude.Nullish null := ⟨here, "null", rfl, .inl (by decide)⟩
  have hundefined : Scope.prelude.Nullish undefined := ⟨here, "undefined", rfl, .inr (by decide)⟩
  have hfirst : Scope.prelude.Reshuffles [null, strings, undefined] [undefined, null, strings] :=
    .perm (@List.perm_append_comm _ [null, strings] [undefined])
  have hleftOut : Scope.prelude.Reshuffles [undefined, null, strings] [null, strings] :=
    .leftOut hundefined ⟨null, List.mem_cons_self, hnull⟩
  have hrepeated : Scope.prelude.Reshuffles [null, strings] [null, null, strings] :=
    .repeated hnull List.mem_cons_self
  have h := (hfirst.trans hleftOut).trans hrepeated
  refine ⟨h, ((bind_union_exact .prelude here (by simp) _).2 _ h here).1 ?_⟩
  refine (bind_union_exact .prelude here (by simp) _).1.2 (.inl ⟨⟨null, by simp, hnull⟩, ?_⟩)
  refine ⟨strings, .constructor "array" [.named "string"], ?_, by decide +kernel, rfl⟩
  refine ⟨[null], [undefined], rfl, ?_, by simp [hnull, hundefined]⟩
  rintro ⟨_, _, h, _⟩
  exact TypeExpr.noConfusion h

end Ambient
