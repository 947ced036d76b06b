/-!
# Hexadecimal numbers
-/

namespace Ambient

/-- Hexadecimal digits, of either case. -/
def isHexDigit (c : Char) : Bool :=
  c.isDigit || ('a' ≤ c && c ≤ 'f') || ('A' ≤ c && c ≤ 'F')

/-- The value of a hexadecimal digit. -/
def hexDigitValue (c : Char) : Nat :=
  if c.isDigit then c.toNat - '0'.toNat
  else if 'a' ≤ c then c.toNat - 'a'.toNat + 10
  else c.toNat - 'A'.toNat + 10

/-- The number that hexadecimal digits denote. -/
def hexValue (digits : List Char) : Nat :=
  digits.foldl (fun n d => 16 * n + hexDigitValue d) 0

/-- The number that a hexadecimal numeral denotes: one digit or more, after a plus sign or not. -/
def hexNumeral? (cs : List Char) : Option Nat :=
  let digits := match cs with
    | '+' :: rest => rest
    | _ => cs
  if !digits.isEmpty && digits.all isHexDigit then some (hexValue digits) else none

/-- One hexadecimal digit or more. -/
structure IsHexDigits (cs : List Char) : Prop where
  nonempty : cs ≠ []
  isHexDigit : ∀ c ∈ cs, isHexDigit c

theorem IsHexDigits.not_mem {cs : List Char} (h : IsHexDigits cs) {c : Char}
    (hc : Ambient.isHexDigit c = false) : c ∉ cs := by
  intro hmem
  have hdigit := h.isHexDigit c hmem
  rw [hc] at hdigit
  cases hdigit

theorem hexNumeral?_plus {digits : List Char} (h : IsHexDigits digits) :
    hexNumeral? ('+' :: digits) = some (hexValue digits) := by
  have hall : digits.all isHexDigit = true := List.all_eq_true.2 h.isHexDigit
  simp [hexNumeral?, h.nonempty, hall]

theorem hexNumeral?_digits {digits : List Char} (h : IsHexDigits digits) :
    hexNumeral? digits = some (hexValue digits) := by
  have hall : digits.all isHexDigit = true := List.all_eq_true.2 h.isHexDigit
  unfold hexNumeral?
  split
  · exact absurd (.head _) (h.not_mem (c := '+') rfl)
  · simp [h.nonempty, hall]

/-- A numeral is digits, with a plus sign before them or without. -/
theorem exists_digits_of_hexNumeral? {cs : List Char} {n : Nat} (h : hexNumeral? cs = some n) :
    ∃ digits, IsHexDigits digits ∧ n = hexValue digits ∧ (cs = digits ∨ cs = '+' :: digits) := by
  have keep : ∀ digits : List Char,
      (if !digits.isEmpty && digits.all isHexDigit then some (hexValue digits) else none) = some n →
        IsHexDigits digits ∧ n = hexValue digits := by
    intro digits hif
    split at hif
    · rename_i hdigits
      rw [Bool.and_eq_true, List.all_eq_true] at hdigits
      cases hif
      exact ⟨⟨by simpa using hdigits.1, hdigits.2⟩, rfl⟩
    · cases hif
  unfold hexNumeral? at h
  split at h
  · rename_i digits
    exact ⟨digits, (keep _ h).1, (keep _ h).2, .inr rfl⟩
  · exact ⟨cs, (keep _ h).1, (keep _ h).2, .inl rfl⟩

end Ambient
