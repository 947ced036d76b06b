import Ambient.Compile.Type
import Ambient.Proofs.Identifier
import Mathlib.Data.List.Nodup
import Mathlib.Data.List.Perm.Subperm
/-!
# Type parameters

Two facts about the names of type parameters. They start with a lowercase letter, and no character
is a lowercase and an uppercase letter, so a type parameter never has the name of an interface. And
each is written as a type variable whose identifier no type variable around it has
(`Scope.freshVariable_not_taken`): a name and that name with numbers behind it are written as
identifiers that all differ, so the type variables in scope cannot take all that are tried.
-/

namespace Ambient

/-! ## Letter case -/

namespace Letter

def Run.last (r : Run) : Nat := r.first + (r.count - 1) * r.stride

/-- The code points of the run are all even or all odd. -/
def Run.keepsParity (r : Run) : Bool := r.stride == 2 || r.count ≤ 1

/-- One run ends before the other starts, or they take turns. -/
def Run.apart (r s : Run) : Bool :=
  r.last < s.first || s.last < r.first ||
    r.keepsParity && s.keepsParity && r.first % 2 != s.first % 2

theorem Run.of_contains {r : Run} {n : Nat} (h : r.contains n) :
    r.first ≤ n ∧ n ≤ r.last ∧ (r.keepsParity → n % 2 = r.first % 2) := by
  simp only [Run.contains, Bool.and_eq_true, decide_eq_true_eq, beq_iff_eq] at h
  obtain ⟨⟨hle, hmod⟩, hdiv⟩ := h
  have heq : n = r.first + (n - r.first) / r.stride * r.stride := by
    have hdm := Nat.div_add_mod (n - r.first) r.stride
    rw [hmod, Nat.add_zero, Nat.mul_comm] at hdm
    omega
  refine ⟨hle, ?_, ?_⟩
  · have hsteps : (n - r.first) / r.stride * r.stride ≤ (r.count - 1) * r.stride :=
      Nat.mul_le_mul_right _ (by omega)
    unfold Run.last
    omega
  · intro hp
    unfold Run.keepsParity at hp
    simp only [Bool.or_eq_true, beq_iff_eq, decide_eq_true_eq] at hp
    rcases hp with hp | hp
    · rw [hp] at heq
      omega
    · have hzero : (n - r.first) / r.stride = 0 := Nat.lt_one_iff.1 (Nat.lt_of_lt_of_le hdiv hp)
      rw [hzero] at heq
      omega

theorem Run.not_contains_of_apart {r s : Run} (h : r.apart s) {n : Nat} (hr : r.contains n) :
    ¬ s.contains n := by
  intro hs
  obtain ⟨hr₁, hr₂, hrp⟩ := Run.of_contains hr
  obtain ⟨hs₁, hs₂, hsp⟩ := Run.of_contains hs
  simp only [Run.apart, Bool.or_eq_true, Bool.and_eq_true, decide_eq_true_eq, bne_iff_ne] at h
  rcases h with (h | h) | ⟨⟨hp, hq⟩, hne⟩
  · omega
  · omega
  · exact hne (by rw [← hrp hp, ← hsp hq])

theorem not_isUpper_of_isLower {c : Char} (h : isLower c) : ¬ isUpper c := by
  have hapart : lowercase.all (fun r => uppercase.all r.apart) = true := by decide +kernel
  intro hu
  obtain ⟨r, hr, hrc⟩ := List.any_eq_true.1 h
  obtain ⟨s, hs, hsc⟩ := List.any_eq_true.1 hu
  exact Run.not_contains_of_apart (List.all_eq_true.1 (List.all_eq_true.1 hapart r hr) s hs) hrc hsc

theorem ne_of_startsLower_of_startsUpper {name other : String} (hl : startsLower name)
    (hu : startsUpper other) : name ≠ other := by
  rintro rfl
  unfold startsLower at hl
  unfold startsUpper at hu
  cases hc : name.toList.head? with
  | none => rw [hc] at hl; cases hl
  | some c =>
    rw [hc] at hl hu
    exact not_isUpper_of_isLower hl hu

end Letter

/-! ## Numbers behind names -/

namespace Name

theorem lowerFirst_append {ds : List Char} (hne : ds ≠ []) (hds : ∀ d ∈ ds, d.isDigit)
    (cs : List Char) : lowerFirst (cs ++ ds) = lowerFirst cs ++ ds := by
  cases cs with
  | cons c cs =>
    simp only [List.cons_append, lowerFirst]
    split
    · rfl
    · split <;> rfl
  | nil =>
    -- The underscore that the empty name gets is the one that leading digits get.
    obtain ⟨d, ds, rfl⟩ := List.exists_cons_of_ne_nil hne
    have hd := hds d (by simp)
    have all : ∀ n < 128, isIdentChar (Char.ofNat n) → (Char.ofNat n).isDigit →
        ¬ (Char.ofNat n).isUpper := by decide
    have hup := ident_forall (p := fun c => c.isDigit → ¬ c.isUpper) all
      (isIdentChar_of_isDigit hd) hd
    simp [lowerFirst, hup, hd]

/-- Digits behind a name stay as they are, and no reserved word ends in one. -/
theorem lowerChars_append {ds : List Char} (hne : ds ≠ []) (hds : ∀ d ∈ ds, d.isDigit)
    (cs : List Char) : lowerChars (cs ++ ds) = lowerFirst (sanitize cs) ++ ds := by
  have hident : ∀ d ∈ ds, isIdentChar d := fun d hd => isIdentChar_of_isDigit (hds d hd)
  have hres : isReserved (lowerFirst (sanitize cs) ++ ds) = false := by
    have hlast := not_isReserved_concat (lowerFirst (sanitize cs) ++ ds.dropLast)
      (.inr (hds _ (List.getLast_mem hne)))
    rwa [List.append_assoc, List.dropLast_append_getLast hne] at hlast
  unfold lowerChars avoidReserved
  rw [sanitize_append, sanitize_eq_self hident, lowerFirst_append hne hds, hres]
  simp

end Name

theorem toList_lowerIdent_number (name : String) (k : Nat) :
    (lowerIdent (name ++ toString k)).toList
      = Name.lowerFirst (Name.sanitize name.toList) ++ Nat.toDigits 10 k := by
  have hdigits : ∀ d ∈ Nat.toDigits 10 k, d.isDigit :=
    fun d hd => Nat.isDigit_of_mem_toDigits (by decide) (by decide) hd
  rw [toList_lowerIdent, String.toList_append, Nat.toString_eq_repr, Nat.toList_repr,
    Name.lowerChars_append Nat.toDigits_ne_nil hdigits]

theorem lowerIdent_number_injective (name : String) :
    Function.Injective fun k : Nat => lowerIdent (name ++ toString k) := by
  intro j k h
  have hchars := congrArg String.toList h
  rw [toList_lowerIdent_number, toList_lowerIdent_number, List.append_cancel_left_eq] at hchars
  calc
    j = Nat.ofDigitChars 10 (Nat.toDigits 10 j) 0 := Nat.ofDigitChars_ten_toDigits.symm
    _ = Nat.ofDigitChars 10 (Nat.toDigits 10 k) 0 := by rw [hchars]
    _ = k := Nat.ofDigitChars_ten_toDigits

/-- A name and that name with a number behind it are written as different identifiers: what stands
behind the written name is nothing, the underscore of a reserved word, or the number. -/
theorem lowerIdent_ne_number (name : String) (k : Nat) :
    lowerIdent name ≠ lowerIdent (name ++ toString k) := by
  intro h
  have hchars := congrArg String.toList h
  rw [toList_lowerIdent_number, toList_lowerIdent, Name.lowerChars, Name.avoidReserved] at hchars
  split at hchars
  · have hdigits := List.append_cancel_left hchars
    have hdigit : '_'.isDigit :=
      Nat.isDigit_of_mem_toDigits (by decide) (by decide) (hdigits ▸ List.mem_singleton_self '_')
    exact absurd hdigit (by decide)
  · exact Nat.toDigits_ne_nil (List.self_eq_append_right.1 hchars)

/-! ## Fresh type variables -/

namespace Scope

/-- The names that can become the type variable of a type parameter, in the order in which they are
looked at: its name, then its name with the numbers from 1 on behind it. -/
def candidate (name : String) : Nat → String
  | 0 => name
  | k + 1 => name ++ toString (k + 1)

theorem lowerIdent_candidate_injective (name : String) :
    Function.Injective fun k => lowerIdent (candidate name k) := by
  intro j k h
  match j, k with
  | 0, 0 => rfl
  | 0, k + 1 => exact absurd h (lowerIdent_ne_number name (k + 1))
  | j + 1, 0 => exact absurd h.symm (lowerIdent_ne_number name (j + 1))
  | j + 1, k + 1 => exact lowerIdent_number_injective name h

/-- Each candidate that is taken uses up an identifier of its own. -/
theorem le_length_of_taken {taken : List String} {name : String} {n : Nat}
    (h : ∀ i < n, lowerIdent (candidate name i) ∈ taken) : n ≤ taken.length := by
  let idents := (List.range n).map fun i => lowerIdent (candidate name i)
  have hnodup : idents.Nodup := List.nodup_range.map (lowerIdent_candidate_injective name)
  have hsubset : idents ⊆ taken := by
    intro x hx
    obtain ⟨i, hi, rfl⟩ := List.mem_map.1 hx
    exact h i (List.mem_range.1 hi)
  calc
    n = idents.length := by simp [idents]
    _ ≤ taken.length := (hnodup.subperm hsubset).length_le

/-- The search passes over candidates that are taken and stops at one that is not, if there is one
among its tries. -/
theorem freshSuffix_eq (taken : List String) (name : String) (tries k : Nat) :
    ∃ n, freshSuffix taken name tries (k + 1) = candidate name (k + n + 1) ∧
      (∀ i < n, lowerIdent (candidate name (k + i + 1)) ∈ taken) ∧
      (n < tries → lowerIdent (candidate name (k + n + 1)) ∉ taken) := by
  induction tries generalizing k with
  | zero => exact ⟨0, rfl, fun i hi => absurd hi (by omega), fun hlt => absurd hlt (by omega)⟩
  | succ tries ih =>
    unfold freshSuffix
    split
    · rename_i htaken
      obtain ⟨n, heq, hbefore, hlast⟩ := ih (k + 1)
      have hshift : ∀ i, k + 1 + i + 1 = k + (i + 1) + 1 := fun i => by omega
      simp only [hshift] at heq hbefore hlast
      refine ⟨n + 1, heq, ?_, fun hlt => hlast (by omega)⟩
      intro i hi
      cases i with
      | zero => exact List.contains_iff_mem.1 htaken
      | succ i => exact hbefore i (by omega)
    · rename_i hfree
      exact ⟨0, rfl, fun i hi => absurd hi (by omega),
        fun _ hmem => hfree (List.contains_iff_mem.2 hmem)⟩

/-- A type parameter is written as the first candidate that is not taken. The tries never run out:
with the name itself, all candidates before it are taken. -/
theorem freshVariable_eq_candidate (scope : Scope) (name : String) :
    ∃ n ≤ scope.takenIdents.length, scope.freshVariable name = candidate name n ∧
      (∀ i < n, lowerIdent (candidate name i) ∈ scope.takenIdents) ∧
      lowerIdent (candidate name n) ∉ scope.takenIdents := by
  unfold freshVariable
  dsimp only
  split
  · rename_i htaken
    obtain ⟨n, heq, hbefore, hlast⟩ :=
      freshSuffix_eq scope.takenIdents name scope.takenIdents.length 0
    simp only [Nat.zero_add] at heq hbefore hlast
    have hall : ∀ i < n + 1, lowerIdent (candidate name i) ∈ scope.takenIdents := by
      intro i hi
      cases i with
      | zero => exact List.contains_iff_mem.1 htaken
      | succ i => exact hbefore i (by omega)
    have hlength := le_length_of_taken hall
    exact ⟨n + 1, hlength, heq, hall, hlast hlength⟩
  · rename_i hfree
    exact ⟨0, Nat.zero_le _, rfl, fun i hi => absurd hi (by omega),
      fun hmem => hfree (List.contains_iff_mem.2 hmem)⟩

/-- A type parameter is written as a type variable that prints like none in scope. -/
theorem freshVariable_not_taken (scope : Scope) (name : String) :
    lowerIdent (scope.freshVariable name) ∉ scope.takenIdents := by
  obtain ⟨n, -, heq, -, hfree⟩ := scope.freshVariable_eq_candidate name
  rw [heq]
  exact hfree

end Scope

end Ambient
