import Ambient.Proofs.Identifier
import Ambient.Proofs.Types
import Ambient.Token.Scanner
/-!
# Names in normal form

A form of identifiers is given by the ranges of their first character and of the others, and by the
words that are none of them (`Form`). Writing a name as an identifier is a normalization: what is
written is of the form, and exactly the names of the form are written as they are (`Normalizes`).
Where a type or a module is defined and where it is used, its name goes through the same
normalization, also on the way through a path, so both places show the same identifier
(`idents_normalize`).
-/

namespace Ambient

namespace Name

/-! ## Forms of identifiers -/

/-- A form of identifiers: the ranges of the first character and of the others, and the words that
are excluded. -/
structure Form where
  first : List (Char × Char)
  next : List (Char × Char)
  excluded : List String

/-- Whether a character lies in one of the ranges, whose ends belong to them. -/
def within (ranges : List (Char × Char)) (c : Char) : Bool :=
  ranges.any fun r => r.1.toNat ≤ c.toNat && c.toNat ≤ r.2.toNat

/-- Whether a name is of the form. -/
def Form.fits (f : Form) (s : String) : Bool :=
  s.toList.head?.any (within f.first) && s.toList.tail.all (within f.next) && !f.excluded.contains s

/-- The characters that all identifiers go on with: `[A-Za-z0-9_']`. -/
def identRanges : List (Char × Char) :=
  [('A', 'Z'), ('a', 'z'), ('0', '9'), ('_', '_'), ('\x27', '\x27')]

/-- Identifiers of values, types and type variables: `[a-z_][A-Za-z0-9_']*` and no reserved word. -/
def lowerForm : Form := ⟨[('a', 'z'), ('_', '_')], identRanges, reserved⟩

/-- Identifiers of modules: `[A-Z][A-Za-z0-9_']*`. -/
def moduleForm : Form := ⟨[('A', 'Z')], identRanges, []⟩

/-- Two classes of ASCII characters are the same if they agree on ASCII. -/
theorem eq_of_ascii {p q : Char → Bool} (hp : ∀ c, p c → c.toNat < 128)
    (hq : ∀ c, q c → c.toNat < 128) (h : ∀ n < 128, p (Char.ofNat n) = q (Char.ofNat n)) (c : Char) :
    p c = q c := by
  by_cases hc : c.toNat < 128
  · exact ascii_forall (p := fun c => p c = q c) h hc
  · rw [Bool.eq_false_iff.2 fun h => hc (hp c h), Bool.eq_false_iff.2 fun h => hc (hq c h)]

theorem toNat_lt_of_within {ranges : List (Char × Char)} (h : ranges.all (·.2.toNat < 128))
    (c : Char) (hc : within ranges c) : c.toNat < 128 := by
  obtain ⟨r, hr, hcr⟩ := List.any_eq_true.1 hc
  have hlast := List.all_eq_true.1 h r hr
  simp only [Bool.and_eq_true, decide_eq_true_eq] at hcr hlast
  omega

theorem within_identRanges : within identRanges = isIdentChar :=
  funext <| eq_of_ascii (toNat_lt_of_within (by decide)) (fun _ h => toNat_lt_of_isIdentChar h)
    (by decide)

theorem isIdentChar_of_startsLower {c : Char} (h : startsLower c) : isIdentChar c := by
  rcases Bool.or_eq_true_iff.1 h with h | h
  · exact isIdentChar_of_isLower h
  · rw [eq_of_beq h]
    decide

theorem within_lowerForm_first : within lowerForm.first = startsLower :=
  funext <| eq_of_ascii (toNat_lt_of_within (by decide))
    (fun _ h => toNat_lt_of_isIdentChar (isIdentChar_of_startsLower h)) (by decide)

theorem within_moduleForm_first : within moduleForm.first = Char.isUpper :=
  funext <| eq_of_ascii (toNat_lt_of_within (by decide))
    (fun _ h => toNat_lt_of_isIdentChar (isIdentChar_of_isUpper h)) (by decide)

/-- The first character of a name of the form is among the others, if that is so for the ranges. -/
theorem Form.fits_iff {f : Form} (hf : ∀ c, within f.first c → within f.next c) {s : String} :
    f.fits s ↔ ((∃ c ∈ s.toList.head?, within f.first c) ∧ ∀ c ∈ s.toList, within f.next c) ∧
      s ∉ f.excluded := by
  unfold fits
  cases s.toList with
  | nil => simp
  | cons c cs =>
    simp only [List.head?_cons, Option.any_some, List.tail_cons, Bool.and_eq_true,
      List.all_eq_true, Bool.not_eq_true', List.contains_eq_mem, decide_eq_false_iff_not,
      Option.mem_some_iff, exists_eq_left', List.forall_mem_cons]
    exact and_congr_left' ⟨fun h => ⟨h.1, hf c h.1, h.2⟩, fun h => ⟨h.1, h.2.2⟩⟩

theorem isReserved_eq_false_iff {s : String} : isReserved s.toList = false ↔ s ∉ reserved := by
  simp only [isReserved, List.any_eq_false, beq_iff_eq, String.toList_inj]
  exact ⟨fun h hs => h s hs rfl, fun h w hw hws => h (hws ▸ hw)⟩

theorem fits_lowerForm_iff {s : String} : lowerForm.fits s ↔ IsLowerIdent s.toList := by
  have hfirst : ∀ c, within lowerForm.first c → within lowerForm.next c := by
    rw [within_lowerForm_first]
    intro c hc
    rw [lowerForm, within_identRanges]
    exact isIdentChar_of_startsLower hc
  rw [Form.fits_iff hfirst, within_lowerForm_first]
  simp only [lowerForm, within_identRanges, ← isReserved_eq_false_iff]
  rfl

theorem fits_moduleForm_iff {s : String} : moduleForm.fits s ↔ IsModuleIdent s.toList := by
  have hfirst : ∀ c, within moduleForm.first c → within moduleForm.next c := by
    rw [within_moduleForm_first]
    intro c hc
    rw [moduleForm, within_identRanges]
    exact isIdentChar_of_isUpper hc
  rw [Form.fits_iff hfirst, within_moduleForm_first]
  simp only [moduleForm, within_identRanges, List.not_mem_nil, not_false_eq_true, and_true]
  rfl

/-! ## Normalization -/

/-- `write` brings every name into a form and leaves exactly the names of that form as they are. -/
structure Normalizes (write : String → String) (f : Form) : Prop where
  fits : ∀ s, f.fits (write s)
  eq_self_iff : ∀ s, write s = s ↔ f.fits s
  idempotent : ∀ s, write (write s) = write s
  /-- Nothing in an identifier ends it, or the line that it stands in. -/
  plain : ∀ s, ∀ c ∈ (write s).toList, c ≠ '.' ∧ c ≠ ' ' ∧ c ≠ '"' ∧ ¬ isLineBreak c

theorem plain_of_isIdentChar {c : Char} (h : isIdentChar c) :
    c ≠ '.' ∧ c ≠ ' ' ∧ c ≠ '"' ∧ ¬ isLineBreak c :=
  ident_forall (p := fun c => c ≠ '.' ∧ c ≠ ' ' ∧ c ≠ '"' ∧ ¬ isLineBreak c) (by decide) h

/-- It is enough that what is written is of the form and that names of the form stay. -/
theorem Normalizes.of_fits {write : String → String} {f : Form} (hfits : ∀ s, f.fits (write s))
    (hself : ∀ s, f.fits s → write s = s)
    (hchars : ∀ s, ∀ c ∈ (write s).toList, isIdentChar c) : Normalizes write f where
  fits := hfits
  eq_self_iff s := ⟨fun h => h ▸ hfits s, hself s⟩
  idempotent s := hself (write s) (hfits s)
  plain s c hc := plain_of_isIdentChar (hchars s c hc)

theorem normalizes_lowerIdent : Normalizes lowerIdent lowerForm := by
  refine .of_fits (fun s => ?_) (fun s hs => ?_) (fun s c hc => ?_)
  · rw [fits_lowerForm_iff, toList_lowerIdent]
    exact isLowerIdent_lowerChars s.toList
  · rw [lowerIdent, lowerChars_eq_self (fits_lowerForm_iff.1 hs), String.ofList_toList]
  · rw [toList_lowerIdent] at hc
    exact isIdentChar_of_mem_lowerChars hc

theorem normalizes_moduleIdent : Normalizes moduleIdent moduleForm := by
  refine .of_fits (fun s => ?_) (fun s hs => ?_) (fun s c hc => ?_)
  · rw [fits_moduleForm_iff, toList_moduleIdent]
    exact isModuleIdent_moduleChars s.toList
  · rw [moduleIdent, moduleChars_eq_self (fits_moduleForm_iff.1 hs), String.ofList_toList]
  · rw [toList_moduleIdent] at hc
    exact isIdentChar_of_mem_moduleChars hc

end Name

/-! ## Definitions and uses -/

/-- The text in front of the name of a type constructor. -/
def Ty.argumentChars : List Ty → List Char
  | [] => []
  | [argument] => argument.chars true ++ [' ']
  | arguments => '(' :: joinedBy ", ".toList (charsAll false arguments) ++ ") ".toList

theorem Ty.chars_constructor (tight : Bool) (name : String) (arguments : List Ty) :
    (Ty.constructor name arguments).chars tight = argumentChars arguments ++ Name.typePath name := by
  match arguments with
  | [] | [_] | _ :: _ :: _ => simp [chars, argumentChars]

/-- The text in front of the name in the line of a type declaration. -/
def TypeDeclaration.front (d : TypeDeclaration) : List Char :=
  (if d.isNonrec then "type nonrec ".toList else "type ".toList) ++ parameterChars d.parameters

/-- Wherever `s` is defined and used as a type, and wherever it is defined and used as a module, it
is written as the same identifier. -/
structure Name.WrittenAlike (s : String) : Prop where
  typePath_eq : typePath s = (lowerIdent s).toList
  typeDefinition : ∀ d : TypeDeclaration, d.name = s →
    d.chars = d.front ++ (lowerIdent s).toList ++ " = ".toList ++ d.body.chars false
  typeUse : ∀ tight arguments, (Ty.constructor s arguments).chars tight
    = Ty.argumentChars arguments ++ (lowerIdent s).toList
  modulePath_eq : ∀ rest,
    typePath (s ++ "." ++ rest) = (moduleIdent s).toList ++ '.' :: typePath rest
  moduleDefinition : ∀ items depth, ((Item.submodule s items).lines depth).head?
    = some ⟨depth, "module ".toList ++ (moduleIdent s).toList ++ " = struct".toList⟩
  moduleUse : ∀ tight rest arguments, (Ty.constructor (s ++ "." ++ rest) arguments).chars tight
    = Ty.argumentChars arguments ++ (moduleIdent s).toList ++ '.' :: typePath rest

theorem Name.writtenAlike_of_not_mem {s : String} (h : '.' ∉ s.toList) : WrittenAlike s where
  typePath_eq := by rw [typePath_of_not_mem h, toList_lowerIdent]
  typeDefinition := by
    rintro d rfl
    rw [TypeDeclaration.chars, TypeDeclaration.front, toList_lowerIdent]
  typeUse tight arguments := by
    rw [Ty.chars_constructor, typePath_of_not_mem h, toList_lowerIdent]
  modulePath_eq rest := by rw [typePath_append h, toList_moduleIdent]
  moduleDefinition items depth := by
    rw [Item.lines, List.cons_append, List.head?_cons, toList_moduleIdent]
  moduleUse tight rest arguments := by
    rw [Ty.chars_constructor, typePath_append h, toList_moduleIdent, List.append_assoc]

/-- Names are written in normal form, as lowercase identifiers and as identifiers of modules, and a
name without a dot is written the same where it is defined and where it is used. -/
theorem Name.idents_normalize :
    Normalizes lowerIdent lowerForm ∧ Normalizes moduleIdent moduleForm ∧
      ∀ s : String, '.' ∉ s.toList → WrittenAlike s :=
  ⟨normalizes_lowerIdent, normalizes_moduleIdent, fun _ h => writtenAlike_of_not_mem h⟩

end Ambient
