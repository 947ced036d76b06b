import Ambient.Proofs.TypeParameters
import Mathlib.Order.Bounds.Defs
/-!
# The search for a fresh type variable

A type parameter is written as its name if no type variable in scope is printed like that, and
otherwise with the smallest number behind it that makes it so. The number is found by a loop that
has no bound of its own (`Search.Ends`). It ends because its candidates are all printed differently,
so each turn meets another type variable in scope, and what it ends with is
`Scope.freshVariable` (`Scope.freshVariable_smallest`).
-/

namespace Ambient

theorem Name.typeVariable_eq_iff {v w : String} :
    typeVariable v = typeVariable w ↔ lowerIdent v = lowerIdent w := by
  simp [typeVariable, lowerIdent, String.ofList_inj]

namespace Scope

/-- Some type variable in scope is printed like `w`. -/
def Prints (scope : Scope) (w : String) : Prop :=
  ∃ name printed, Entry.typeVariable name printed ∈ scope.entries ∧
    Name.typeVariable printed = Name.typeVariable w

theorem prints_iff {scope : Scope} {w : String} :
    scope.Prints w ↔ lowerIdent w ∈ scope.takenIdents := by
  unfold Prints takenIdents typeVariables
  simp only [Name.typeVariable_eq_iff, List.mem_map, List.mem_filterMap]
  constructor
  · rintro ⟨name, printed, hmem, heq⟩
    exact ⟨printed, ⟨_, hmem, rfl⟩, heq⟩
  · rintro ⟨printed, ⟨e, hmem, he⟩, heq⟩
    cases e with
    | typeVariable name v =>
      cases he
      exact ⟨name, printed, hmem, heq⟩
    | _ => cases he

/-! ## The loop -/

/-- Where the search stands: the last number it put behind the name, and the name it looks at. -/
structure Search where
  number : Nat
  word : String

namespace Search

/-- The search for a type variable for `name` ends after so many turns, with the name `w`. -/
inductive Ends (scope : Scope) (name : String) : Search → (turns : Nat) → (w : String) → Prop
  | free {number word} : ¬ scope.Prints word → Ends scope name ⟨number, word⟩ 0 word
  | next {number word turns w} : scope.Prints word →
    Ends scope name ⟨number + 1, name ++ toString (number + 1)⟩ turns w →
    Ends scope name ⟨number, word⟩ (turns + 1) w

variable {scope : Scope} {name : String}

theorem Ends.unique {s : Search} {m n : Nat} {v w : String} (h : Ends scope name s m v)
    (h' : Ends scope name s n w) : m = n ∧ v = w := by
  induction h generalizing n with
  | free hfree =>
    cases h' with
    | free => exact ⟨rfl, rfl⟩
    | next hprints => exact absurd hprints hfree
  | next hprints _ ih =>
    cases h' with
    | free hfree => exact absurd hprints hfree
    | next _ h' =>
      obtain ⟨rfl, rfl⟩ := ih h'
      exact ⟨rfl, rfl⟩

/-- The loop looks at the candidates in order and ends at the first that no type variable in scope
is printed like. -/
theorem ends_candidate {turns : Nat} (k : Nat)
    (hbefore : ∀ i < turns, scope.Prints (candidate name (k + i)))
    (hfree : ¬ scope.Prints (candidate name (k + turns))) :
    Ends scope name ⟨k, candidate name k⟩ turns (candidate name (k + turns)) := by
  induction turns generalizing k with
  | zero => exact .free hfree
  | succ turns ih =>
    have hshift : ∀ i, k + (i + 1) = k + 1 + i := fun i => by omega
    rw [hshift] at hfree ⊢
    refine .next (hbefore 0 (by omega)) (ih (k + 1) (fun i hi => ?_) hfree)
    rw [← hshift]
    exact hbefore (i + 1) (by omega)

end Search

/-! ## What it ends with -/

/-- `freshVariable_eq_candidate` in terms of what is printed. -/
theorem freshVariable_eq_first (scope : Scope) (name : String) :
    ∃ n ≤ scope.typeVariables.length, scope.freshVariable name = candidate name n ∧
      (∀ i < n, scope.Prints (candidate name i)) ∧ ¬ scope.Prints (candidate name n) := by
  obtain ⟨n, hn, heq, hbefore, hfree⟩ := scope.freshVariable_eq_candidate name
  rw [takenIdents, List.length_map] at hn
  exact ⟨n, hn, heq, fun i hi => prints_iff.2 (hbefore i hi), fun h => hfree (prints_iff.1 h)⟩

/-- The number behind the first candidate is the smallest that can stand there. -/
theorem isLeast_of_first {scope : Scope} {name : String} {k : Nat}
    (hbefore : ∀ i < k + 1, scope.Prints (candidate name i))
    (hfree : ¬ scope.Prints (candidate name (k + 1))) :
    IsLeast {k | 1 ≤ k ∧ ¬ scope.Prints (name ++ toString k)} (k + 1) := by
  refine ⟨⟨Nat.le_add_left 1 k, hfree⟩, ?_⟩
  rintro j ⟨hj, hjfree⟩
  by_contra hlt
  obtain ⟨i, rfl⟩ : ∃ i, j = i + 1 := ⟨j - 1, by omega⟩
  exact hjfree (hbefore (i + 1) (by omega))

/-- The search ends, in one way only, after at most as many turns as there are type variables in
scope. It gives the name of the type parameter if no type variable in scope is printed like that,
and otherwise the name with the smallest such number from 1 on behind it. -/
theorem freshVariable_smallest (scope : Scope) (name : String) :
    (∃ turns ≤ scope.typeVariables.length, ∀ n w,
      Search.Ends scope name ⟨0, name⟩ n w ↔ n = turns ∧ w = scope.freshVariable name) ∧
    (¬ scope.Prints name → scope.freshVariable name = name) ∧
    (scope.Prints name → ∃ k, IsLeast {k | 1 ≤ k ∧ ¬ scope.Prints (name ++ toString k)} k ∧
      scope.freshVariable name = name ++ toString k) ∧
    ¬ scope.Prints (scope.freshVariable name) := by
  obtain ⟨turns, hturns, heq, hbefore, hfree⟩ := scope.freshVariable_eq_first name
  have hends : Search.Ends scope name ⟨0, name⟩ turns (scope.freshVariable name) := by
    have hrun : Search.Ends scope name ⟨0, candidate name 0⟩ turns (candidate name (0 + turns)) :=
      Search.ends_candidate 0 (by simpa using hbefore) (by simpa using hfree)
    rwa [Nat.zero_add, ← heq] at hrun
  refine ⟨⟨turns, hturns, fun n w => ⟨fun h => h.unique hends, ?_⟩⟩, ?_, ?_, heq ▸ hfree⟩
  · rintro ⟨rfl, rfl⟩
    exact hends
  · intro hname
    cases turns with
    | zero => exact heq
    | succ k => exact absurd (hbefore 0 (Nat.succ_pos k)) hname
  · intro hname
    cases turns with
    | zero => exact absurd hname hfree
    | succ k => exact ⟨k + 1, isLeast_of_first hbefore hfree, heq⟩

end Scope

end Ambient
