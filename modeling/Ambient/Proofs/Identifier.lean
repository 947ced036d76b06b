import Ambient.Binding.Printer
import Mathlib.Data.List.Basic
/-!
# The identifiers that names are written as

A lowercase identifier starts with a small letter or an underscore, goes on with identifier
characters and is no reserved word; a module identifier starts with a capital. We prove that
`lowerChars` and `moduleChars` always give such identifiers and leave those that are already of that
form alone, and that the printed path of a type falls apart at its dots into the identifiers it was
made of.
-/

namespace Ambient.Name

/-! ## Characters -/

/-- What holds of all code points below 128 holds of every ASCII character. -/
theorem ascii_forall {p : Char → Prop} (h : ∀ n < 128, p (Char.ofNat n)) {c : Char}
    (hc : c.toNat < 128) : p c := by
  have := h c.toNat hc
  rwa [Char.ofNat_toNat] at this

theorem toNat_lt_of_isIdentChar {c : Char} (h : isIdentChar c) : c.toNat < 128 := by
  unfold isIdentChar at h
  delta Char.isAlphanum Char.isAlpha Char.isUpper Char.isLower Char.isDigit at h
  simp only [Bool.or_eq_true, Bool.and_eq_true, decide_eq_true_eq, beq_iff_eq,
    UInt32.le_iff_toNat_le] at h
  have hc : c.toNat = c.val.toNat := rfl
  have hZ : 'Z'.val.toNat = 90 := rfl
  have hz : 'z'.val.toNat = 122 := rfl
  have h9 : '9'.val.toNat = 57 := rfl
  rcases h with (((h | h) | h) | rfl) | rfl
  · omega
  · omega
  · omega
  · decide
  · decide

/-- A property of identifier characters need only be checked on ASCII. -/
theorem ident_forall {p : Char → Prop} (h : ∀ n < 128, isIdentChar (Char.ofNat n) → p (Char.ofNat n))
    {c : Char} (hc : isIdentChar c) : p c :=
  ascii_forall (p := fun c => isIdentChar c → p c) h (toNat_lt_of_isIdentChar hc) hc

theorem isAlpha_of_isLower {c : Char} (h : c.isLower) : c.isAlpha :=
  Bool.or_eq_true_iff.2 (.inr h)

theorem isAlpha_of_isUpper {c : Char} (h : c.isUpper) : c.isAlpha :=
  Bool.or_eq_true_iff.2 (.inl h)

theorem isIdentChar_of_isAlpha {c : Char} (h : c.isAlpha) : isIdentChar c := by
  simp [isIdentChar, Char.isAlphanum, h]

theorem isIdentChar_of_isLower {c : Char} (h : c.isLower) : isIdentChar c :=
  isIdentChar_of_isAlpha (isAlpha_of_isLower h)

theorem isIdentChar_of_isUpper {c : Char} (h : c.isUpper) : isIdentChar c :=
  isIdentChar_of_isAlpha (isAlpha_of_isUpper h)

theorem isIdentChar_of_isDigit {c : Char} (h : c.isDigit) : isIdentChar c := by
  simp [isIdentChar, Char.isAlphanum, h]

theorem isLower_toLower {c : Char} (h : c.isUpper) : c.toLower.isLower :=
  ident_forall (p := fun c => c.isUpper → c.toLower.isLower) (by decide) (isIdentChar_of_isUpper h) h

theorem isUpper_toUpper {c : Char} (h : c.isLower) : c.toUpper.isUpper :=
  ident_forall (p := fun c => c.isLower → c.toUpper.isUpper) (by decide) (isIdentChar_of_isLower h) h

/-- The characters that a printed name can start with. -/
def startsIdent (c : Char) : Bool := c.isAlpha || c == '_'

/-! ## Sanitized names -/

theorem isIdentChar_of_mem_sanitize {cs : List Char} {c : Char} (h : c ∈ sanitize cs) :
    isIdentChar c := by
  obtain ⟨d, -, rfl⟩ := List.mem_map.1 h
  by_cases hd : isIdentChar d
  · rwa [if_pos hd]
  · rw [if_neg hd]; decide

theorem sanitize_eq_self {cs : List Char} (h : ∀ c ∈ cs, isIdentChar c) : sanitize cs = cs := by
  unfold sanitize
  conv_rhs => rw [← List.map_id cs]
  exact List.map_congr_left fun c hc => by simp [h c hc]

theorem sanitize_append (cs ds : List Char) : sanitize (cs ++ ds) = sanitize cs ++ sanitize ds :=
  List.map_append

/-! ## Lowercase identifiers -/

/-- A first character that needs no change in a lowercase identifier. -/
def startsLower (c : Char) : Bool := c.isLower || c == '_'

/-- Identifier characters that start like a lowercase identifier. -/
def LowerShaped (cs : List Char) : Prop :=
  (∃ c ∈ cs.head?, startsLower c) ∧ ∀ c ∈ cs, isIdentChar c

/-- A lowercase identifier. -/
def IsLowerIdent (cs : List Char) : Prop := LowerShaped cs ∧ isReserved cs = false

theorem lowerShaped_lowerFirst {cs : List Char} (h : ∀ c ∈ cs, isIdentChar c) :
    LowerShaped (lowerFirst cs) := by
  cases cs with
  | nil => exact ⟨⟨'_', rfl, rfl⟩, by simp only [lowerFirst, List.mem_singleton]; rintro _ rfl; rfl⟩
  | cons c cs =>
    simp only [lowerFirst]
    split
    · rename_i hup
      have hlow := isLower_toLower hup
      refine ⟨⟨c.toLower, rfl, by simp [startsLower, hlow]⟩, ?_⟩
      intro d hd
      rcases List.mem_cons.1 hd with rfl | hd
      · exact isIdentChar_of_isLower hlow
      · exact h d (by simp [hd])
    · split
      · refine ⟨⟨'_', rfl, rfl⟩, ?_⟩
        intro d hd
        rcases List.mem_cons.1 hd with rfl | hd
        · rfl
        · exact h d hd
      · rename_i hup hdig
        refine ⟨⟨c, rfl, ?_⟩, h⟩
        have all : ∀ n < 128, isIdentChar (Char.ofNat n) → ¬ (Char.ofNat n).isUpper →
            ¬ ((Char.ofNat n).isDigit || Char.ofNat n == '\x27') → startsLower (Char.ofNat n) := by
          decide
        exact ident_forall
          (p := fun c => ¬ c.isUpper → ¬ (c.isDigit || c == '\x27') → startsLower c) all
          (h c (by simp)) hup hdig

theorem lowerFirst_eq_self {cs : List Char} (h : LowerShaped cs) : lowerFirst cs = cs := by
  obtain ⟨⟨c, hc, hlow⟩, hall⟩ := h
  cases cs with
  | nil => cases hc
  | cons d cs =>
    cases hc
    have all : ∀ n < 128, isIdentChar (Char.ofNat n) → startsLower (Char.ofNat n) →
        ¬ (Char.ofNat n).isUpper ∧ ¬ ((Char.ofNat n).isDigit || Char.ofNat n == '\x27') := by decide
    have hd := ident_forall
      (p := fun c => startsLower c → ¬ c.isUpper ∧ ¬ (c.isDigit || c == '\x27')) all
      (hall c (by simp)) hlow
    simp only [lowerFirst]
    rw [if_neg hd.1, if_neg hd.2]

/-- No reserved word ends in an underscore, or in a digit. -/
theorem not_isReserved_concat (cs : List Char) {c : Char} (hc : c = '_' ∨ c.isDigit) :
    isReserved (cs ++ [c]) = false := by
  have hall : reserved.all fun w => w.toList.getLast?.all fun d => d != '_' && !d.isDigit := by
    decide
  rw [← Bool.not_eq_true]
  intro h
  obtain ⟨w, hw, hwc⟩ := List.any_eq_true.1 h
  have hlast := List.all_eq_true.1 hall w hw
  rw [eq_of_beq hwc, List.getLast?_concat, Option.all_some] at hlast
  rcases hc with rfl | hc
  · cases hlast
  · simp [hc] at hlast

theorem isLowerIdent_lowerChars (cs : List Char) : IsLowerIdent (lowerChars cs) := by
  obtain ⟨⟨c, hc, hlow⟩, hall⟩ :=
    lowerShaped_lowerFirst fun c (hc : c ∈ sanitize cs) => isIdentChar_of_mem_sanitize hc
  unfold lowerChars avoidReserved
  split
  · refine ⟨⟨⟨c, by simp [Option.mem_def.1 hc], hlow⟩, ?_⟩, not_isReserved_concat _ (.inl rfl)⟩
    intro d hd
    rcases List.mem_append.1 hd with hd | hd
    · exact hall d hd
    · rw [List.mem_singleton.1 hd]; rfl
  · rename_i hres
    exact ⟨⟨⟨c, hc, hlow⟩, hall⟩, Bool.not_eq_true _ ▸ hres⟩

theorem lowerChars_eq_self {cs : List Char} (h : IsLowerIdent cs) : lowerChars cs = cs := by
  unfold lowerChars avoidReserved
  rw [sanitize_eq_self h.1.2, lowerFirst_eq_self h.1, h.2]
  simp

@[simp]
theorem lowerChars_lowerChars (cs : List Char) : lowerChars (lowerChars cs) = lowerChars cs :=
  lowerChars_eq_self (isLowerIdent_lowerChars cs)

theorem isIdentChar_of_mem_lowerChars {cs : List Char} {c : Char} (h : c ∈ lowerChars cs) :
    isIdentChar c :=
  (isLowerIdent_lowerChars cs).1.2 c h

theorem lowerChars_eq_cons (cs : List Char) : ∃ c ds, lowerChars cs = c :: ds ∧ startsLower c := by
  obtain ⟨⟨⟨c, hc, hlow⟩, -⟩, -⟩ := isLowerIdent_lowerChars cs
  cases h : lowerChars cs with
  | nil => rw [h] at hc; cases hc
  | cons d ds => rw [h] at hc; cases hc; exact ⟨c, ds, rfl, hlow⟩

/-! ## Module identifiers -/

/-- A module identifier. -/
def IsModuleIdent (cs : List Char) : Prop :=
  (∃ c ∈ cs.head?, c.isUpper) ∧ ∀ c ∈ cs, isIdentChar c

theorem isModuleIdent_moduleChars (cs : List Char) : IsModuleIdent (moduleChars cs) := by
  have h : ∀ c ∈ sanitize cs, isIdentChar c := fun c hc => isIdentChar_of_mem_sanitize hc
  unfold moduleChars
  cases hs : sanitize cs with
  | nil => exact ⟨⟨'M', rfl, rfl⟩, by simp only [upperFirst, List.mem_singleton]; rintro _ rfl; rfl⟩
  | cons c ds =>
    rw [hs] at h
    simp only [upperFirst]
    split
    · rename_i hlow
      have hup := isUpper_toUpper hlow
      refine ⟨⟨c.toUpper, rfl, hup⟩, ?_⟩
      intro d hd
      rcases List.mem_cons.1 hd with rfl | hd
      · exact isIdentChar_of_isUpper hup
      · exact h d (by simp [hd])
    · split
      · rename_i hup
        exact ⟨⟨c, rfl, hup⟩, h⟩
      · refine ⟨⟨'M', rfl, rfl⟩, ?_⟩
        intro d hd
        rcases List.mem_cons.1 hd with rfl | hd
        · rfl
        · exact h d hd

theorem moduleChars_eq_self {cs : List Char} (h : IsModuleIdent cs) : moduleChars cs = cs := by
  unfold moduleChars
  rw [sanitize_eq_self h.2]
  obtain ⟨⟨c, hc, hup⟩, -⟩ := h
  cases cs with
  | nil => cases hc
  | cons d ds =>
    cases hc
    have hlow : ¬ c.isLower := by
      have all : ∀ n < 128, isIdentChar (Char.ofNat n) → (Char.ofNat n).isUpper →
          ¬ (Char.ofNat n).isLower := by decide
      exact ident_forall (p := fun c => c.isUpper → ¬ c.isLower) all (isIdentChar_of_isUpper hup) hup
    simp only [upperFirst]
    rw [if_neg hlow, if_pos hup]

@[simp]
theorem moduleChars_moduleChars (cs : List Char) : moduleChars (moduleChars cs) = moduleChars cs :=
  moduleChars_eq_self (isModuleIdent_moduleChars cs)

theorem isIdentChar_of_mem_moduleChars {cs : List Char} {c : Char} (h : c ∈ moduleChars cs) :
    isIdentChar c :=
  (isModuleIdent_moduleChars cs).2 c h

theorem moduleChars_eq_cons (cs : List Char) : ∃ c ds, moduleChars cs = c :: ds ∧ c.isUpper := by
  obtain ⟨⟨c, hc, hup⟩, -⟩ := isModuleIdent_moduleChars cs
  cases h : moduleChars cs with
  | nil => rw [h] at hc; cases hc
  | cons d ds => rw [h] at hc; cases hc; exact ⟨c, ds, rfl, hup⟩

/-! ## Paths -/

/-- The characters of a printed path. -/
def isPathChar (c : Char) : Bool := isIdentChar c || c == '.'

/-- The identifiers that the segments of a path are written as. -/
def printedPath : List (List Char) → List (List Char)
  | [] => []
  | [type] => [lowerChars type]
  | m :: rest => moduleChars m :: printedPath rest

theorem pieces_of_not_mem {separator : Char} {cs : List Char} (h : separator ∉ cs) :
    pieces separator cs = [cs] := by
  induction cs with
  | nil => rfl
  | cons c cs ih =>
    rw [List.mem_cons, not_or] at h
    simp [pieces, ih h.2, Ne.symm h.1]

theorem pieces_append {separator : Char} {cs : List Char} (h : separator ∉ cs) (ds : List Char) :
    pieces separator (cs ++ separator :: ds) = cs :: pieces separator ds := by
  induction cs with
  | nil =>
    simp only [List.nil_append, pieces]
    split
    · exact absurd ‹_› (pieces_ne_nil _ _)
    · rename_i heq; simp [heq]
  | cons c cs ih =>
    rw [List.mem_cons, not_or] at h
    simp [pieces, ih h.2, Ne.symm h.1]

theorem dot_not_mem {cs : List Char} (h : ∀ c ∈ cs, isIdentChar c) : '.' ∉ cs := fun hdot =>
  absurd (h '.' hdot) (by decide)

theorem pieces_pathOf {segments : List (List Char)} (h : segments ≠ []) :
    pieces '.' (pathOf segments) = printedPath segments := by
  induction segments with
  | nil => exact absurd rfl h
  | cons m rest ih =>
    cases rest with
    | nil => exact pieces_of_not_mem (dot_not_mem fun c hc => isIdentChar_of_mem_lowerChars hc)
    | cons m' rest =>
      simp only [pathOf, printedPath]
      rw [pieces_append (dot_not_mem fun c hc => isIdentChar_of_mem_moduleChars hc), ih (by simp)]

theorem pathOf_printedPath (segments : List (List Char)) :
    pathOf (printedPath segments) = pathOf segments := by
  induction segments with
  | nil => rfl
  | cons m rest ih =>
    cases rest with
    | nil => simp [printedPath, pathOf]
    | cons m' rest =>
      have hne : ∃ a as, printedPath (m' :: rest) = a :: as := by
        cases rest <;> exact ⟨_, _, rfl⟩
      obtain ⟨a, as, has⟩ := hne
      rw [has] at ih
      simp only [printedPath, pathOf, has, moduleChars_moduleChars, ih]

/-- A name without a dot is a path of its own. -/
theorem typePath_of_not_mem {name : String} (h : '.' ∉ name.toList) :
    typePath name = lowerChars name.toList := by
  rw [typePath, pieces_of_not_mem h]
  rfl

/-- A name without a dot in front of a path is a module. -/
theorem typePath_append {name : String} (h : '.' ∉ name.toList) (rest : String) :
    typePath (name ++ "." ++ rest) = moduleChars name.toList ++ '.' :: typePath rest := by
  have hchars : (name ++ "." ++ rest).toList = name.toList ++ '.' :: rest.toList := by simp
  rw [typePath, hchars, pieces_append h]
  cases hrest : pieces '.' rest.toList with
  | nil => exact absurd hrest (pieces_ne_nil _ _)
  | cons p ps => rw [pathOf, typePath, hrest]; simp

/-- The text of a path shows which identifiers its segments are written as. -/
theorem pieces_typePath (name : String) :
    pieces '.' (typePath name) = printedPath (pieces '.' name.toList) :=
  pieces_pathOf (pieces_ne_nil _ _)

@[simp]
theorem typePath_typePath (name : String) : typePath (String.ofList (typePath name)) = typePath name := by
  conv_lhs => rw [typePath, String.toList_ofList, pieces_typePath, pathOf_printedPath]
  rfl

theorem isPathChar_of_mem_typePath {name : String} {c : Char} (h : c ∈ typePath name) :
    isPathChar c := by
  have main : ∀ segments, c ∈ pathOf segments → isPathChar c := by
    intro segments
    induction segments with
    | nil => intro h; cases h
    | cons m rest ih =>
      intro h
      cases rest with
      | nil => simp [isPathChar, isIdentChar_of_mem_lowerChars h]
      | cons m' rest =>
        rcases List.mem_append.1 h with h | h
        · simp [isPathChar, isIdentChar_of_mem_moduleChars h]
        · rcases List.mem_cons.1 h with rfl | h
          · rfl
          · exact ih h
  exact main _ h

theorem typePath_eq_cons (name : String) : ∃ c cs, typePath name = c :: cs ∧ startsIdent c := by
  unfold typePath
  cases h : pieces '.' name.toList with
  | nil => exact absurd h (pieces_ne_nil _ _)
  | cons m rest =>
    cases rest with
    | nil =>
      obtain ⟨c, cs, hc, hlow⟩ := lowerChars_eq_cons m
      refine ⟨c, cs, hc, ?_⟩
      simp only [startsLower, Bool.or_eq_true] at hlow
      rcases hlow with hlow | hlow
      · simp [startsIdent, isAlpha_of_isLower hlow]
      · simp [startsIdent, hlow]
    | cons m' rest =>
      obtain ⟨c, cs, hc, hup⟩ := moduleChars_eq_cons m
      exact ⟨c, cs ++ '.' :: pathOf (m' :: rest), by simp [pathOf, hc],
        by simp [startsIdent, isAlpha_of_isUpper hup]⟩

end Ambient.Name

namespace Ambient

@[simp]
theorem toList_lowerIdent (name : String) : (lowerIdent name).toList = Name.lowerChars name.toList :=
  String.toList_ofList

@[simp]
theorem toList_moduleIdent (name : String) :
    (moduleIdent name).toList = Name.moduleChars name.toList :=
  String.toList_ofList

end Ambient
