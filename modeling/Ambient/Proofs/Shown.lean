import Ambient.Proofs.Identifier
import Ambient.Proofs.Types
/-!
# What the text of bindings shows

Printing writes every name as an identifier and leaves some data out: the type parameters that a
function type declares, unless the function is the type of an object field, and of an external
everything but its identifier, its name in JavaScript, its type, its attribute and whether it is
variadic. `Ty.shown` and `Item.shown` keep exactly what is written. The printed text is a function
of it (`linesAll_eq_of_shown`); that it can be read back from the text is proved in
`Ambient.Proofs.Reading`.
-/

namespace Ambient

/-! ## Types -/

namespace Ty

/-- The same function with other type parameters. -/
def quantifiedBy (q : List String) : Ty → Ty
  | .arrow _ ps r => .arrow q ps r
  | t => t

mutual

/-- A type with its names as they are written. -/
def shown : Ty → Ty
  | .constructor name arguments =>
    .constructor (String.ofList (Name.typePath name)) (shownAll arguments)
  | .variable name => .variable (lowerIdent name)
  | .arrow _ parameters result => .arrow [] (shownAll parameters) result.shown
  | .tuple elements => .tuple (shownAll elements)
  | .object fields => .object (shownFields fields)

/-- Types with their names as they are written. -/
def shownAll : List Ty → List Ty
  | [] => []
  | t :: ts => t.shown :: shownAll ts

/-- Fields with their names as they are written. A function keeps its type parameters. -/
def shownFields : List Field → List Field
  | [] => []
  | ⟨name, type⟩ :: fields =>
    ⟨lowerIdent name, type.shown.quantifiedBy (type.quantified.map lowerIdent)⟩
      :: shownFields fields

end

mutual

/-- Whether every function in the type has a parameter and every tuple two elements. -/
def isProper : Ty → Bool
  | .constructor _ arguments => allProper arguments
  | .variable _ => true
  | .arrow _ parameters result => !parameters.isEmpty && allProper parameters && result.isProper
  | .tuple elements => decide (2 ≤ elements.length) && allProper elements
  | .object fields => allProperFields fields

/-- Whether all types are proper. -/
def allProper : List Ty → Bool
  | [] => true
  | t :: ts => t.isProper && allProper ts

/-- Whether the types of all fields are proper. -/
def allProperFields : List Field → Bool
  | [] => true
  | ⟨_, t⟩ :: fs => t.isProper && allProperFields fs

end

theorem shownAll_eq_map (ts : List Ty) : shownAll ts = ts.map shown := by
  induction ts with
  | nil => rfl
  | cons t ts ih => simp [shownAll, ih]

theorem allProper_iff {ts : List Ty} : allProper ts ↔ ∀ t ∈ ts, t.isProper := by
  induction ts with
  | nil => simp [allProper]
  | cons t ts ih => simp [allProper, ih]

theorem allProperFields_iff {fs : List Field} : allProperFields fs ↔ ∀ f ∈ fs, f.type.isProper := by
  induction fs with
  | nil => simp [allProperFields]
  | cons f fs ih =>
    obtain ⟨name, type⟩ := f
    simp [allProperFields, ih]

end Ty

/-- A field with its names as they are written. -/
def Field.shown (f : Field) : Field :=
  ⟨lowerIdent f.name, f.type.shown.quantifiedBy (f.type.quantified.map lowerIdent)⟩

theorem Ty.shownFields_eq_map (fs : List Field) : shownFields fs = fs.map Field.shown := by
  induction fs with
  | nil => rfl
  | cons f fs ih =>
    obtain ⟨name, type⟩ := f
    simp [shownFields, Field.shown, ih]

@[simp]
theorem Name.typeVariable_lowerIdent (name : String) :
    typeVariable (lowerIdent name) = typeVariable name := by
  simp [typeVariable]

theorem Name.map_typeVariable_lowerIdent (names : List String) :
    (names.map lowerIdent).map typeVariable = names.map typeVariable := by
  simp [List.map_map, Function.comp_def]

namespace Ty

theorem quantifierChars_lowerIdent (vs : List String) :
    quantifierChars (vs.map lowerIdent) = quantifierChars vs := by
  cases vs with
  | nil => rfl
  | cons v vs =>
    simp only [List.map_cons, quantifierChars, Name.typeVariable_lowerIdent,
      Name.map_typeVariable_lowerIdent]

/-- The type parameters of a function are no part of its text. -/
theorem chars_quantifiedBy (q : List String) (t : Ty) (tight : Bool) :
    (t.quantifiedBy q).chars tight = t.chars tight := by
  cases t <;> simp only [quantifiedBy, chars]

theorem quantified_quantifiedBy (t : Ty) :
    (t.shown.quantifiedBy (t.quantified.map lowerIdent)).quantified
      = t.quantified.map lowerIdent := by
  cases t <;> simp [shown, quantifiedBy, quantified]

theorem parameterChars_shownAll {ts : List Ty} (h : ∀ t ∈ ts, t.shown.chars true = t.chars true) :
    parameterChars (shownAll ts) = parameterChars ts := by
  induction ts with
  | nil => rfl
  | cons t ts ih =>
    simp only [shownAll, parameterChars, h t (by simp), ih fun u hu => h u (by simp [hu])]

theorem charsAll_shownAll {ts : List Ty} {tight : Bool}
    (h : ∀ t ∈ ts, t.shown.chars tight = t.chars tight) :
    charsAll tight (shownAll ts) = charsAll tight ts := by
  rw [charsAll_eq_map, charsAll_eq_map, shownAll_eq_map, List.map_map]
  exact List.map_congr_left h

/-- The text of a type only depends on what it shows. -/
theorem chars_shown (t : Ty) (tight : Bool) : t.shown.chars tight = t.chars tight := by
  induction t using induct generalizing tight with
  | constructor name ts ih =>
    match ts with
    | [] => simp only [shown, shownAll, chars, Name.typePath_typePath]
    | [t] => simp only [shown, shownAll, chars, Name.typePath_typePath, ih t (by simp)]
    | t :: u :: us =>
      have hargs := charsAll_shownAll fun v hv => ih v hv false
      simp only [shown, shownAll, chars, Name.typePath_typePath] at hargs ⊢
      rw [hargs]
  | ofVariable name => simp only [shown, chars, Name.typeVariable_lowerIdent]
  | arrow q ps r ihps ihr =>
    simp only [shown, chars, parameterChars_shownAll fun p hp => ihps p hp true, ihr]
  | tuple ts ih => simp only [shown, chars, charsAll_shownAll fun t ht => ih t ht true]
  | object fs ih =>
    cases fs with
    | nil => simp only [shown, shownFields]
    | cons f fs =>
      have hfields : (f :: fs).map (Field.chars ∘ Field.shown) = (f :: fs).map Field.chars := by
        refine List.map_congr_left fun g hg => ?_
        simp only [Function.comp, Field.chars, Field.shown, toList_lowerIdent,
          Name.lowerChars_lowerChars, quantified_quantifiedBy, quantifierChars_lowerIdent,
          chars_quantifiedBy, ih g hg]
      rw [← List.map_map, List.map_cons] at hfields
      simp only [shown, shownFields_eq_map, List.map_cons, chars, fieldChars_eq_map] at hfields ⊢
      rw [hfields]

end Ty

/-! ## Items -/

/-- What ties an external to JavaScript: it reads a property, is exported by a module, or is a
global. -/
inductive Attribute where
  | get
  | exportOf (moduleName : String)
  | val
deriving DecidableEq

/-- What the line of an external shows. -/
structure ShownExtern where
  name : String
  sourceName : String
  type : Ty
  tie : Attribute
  isVariadic : Bool
deriving DecidableEq

/-- What the lines of an item show. -/
inductive ShownItem where
  | external (e : ShownExtern)
  | typeDeclaration (d : TypeDeclaration)
  | submodule (name : String) (items : List ShownItem)

/-- The attribute of an external. A getter belongs to no module. -/
def Extern.tie (e : Extern) : Attribute :=
  if e.isGetter then .get
  else
    match e.moduleName with
    | some m => .exportOf m
    | none => .val

def Extern.shown (e : Extern) : ShownExtern :=
  ⟨lowerIdent e.name, e.sourceName, e.type.shown, e.tie, e.isVariadic⟩

def TypeDeclaration.shown (d : TypeDeclaration) : TypeDeclaration :=
  ⟨d.isNonrec, lowerIdent d.name, d.parameters.map lowerIdent, d.body.shown⟩

namespace Item

mutual

/-- An item with its names as they are written. -/
def shown : Item → ShownItem
  | .external e => .external e.shown
  | .typeDeclaration d => .typeDeclaration d.shown
  | .submodule name items => .submodule (moduleIdent name) (shownAll items)

/-- Items with their names as they are written. -/
def shownAll : List Item → List ShownItem
  | [] => []
  | i :: is => i.shown :: shownAll is

end

mutual

/-- Whether all types in the item are proper. -/
def isProper : Item → Bool
  | .external e => e.type.isProper
  | .typeDeclaration d => d.body.isProper
  | .submodule _ items => allProper items

/-- Whether all types in the items are proper. -/
def allProper : List Item → Bool
  | [] => true
  | i :: is => i.isProper && allProper is

end

end Item

/-- The text of an attribute without its brackets. -/
def Attribute.word : Attribute → List Char
  | .get => ['g', 'e', 't']
  | .exportOf m => "module ".toList ++ Name.quoted m.toList
  | .val => ['v', 'a', 'l']

/-- The text of an attribute. -/
def Attribute.chars (a : Attribute) : List Char := "[@@bs.".toList ++ a.word ++ [']']

theorem Extern.attribute_eq (e : Extern) : e.attribute = e.tie.chars := by
  unfold Extern.attribute Extern.tie
  split
  · rfl
  · cases e.moduleName <;> rfl

theorem Extern.chars_eq_of_shown {a b : Extern} (h : a.shown = b.shown) : a.chars = b.chars := by
  simp only [Extern.shown, ShownExtern.mk.injEq] at h
  obtain ⟨hname, hsource, htype, htie, hvariadic⟩ := h
  have hname' := congrArg String.toList hname
  rw [toList_lowerIdent, toList_lowerIdent] at hname'
  unfold Extern.chars
  rw [a.attribute_eq, b.attribute_eq, ← a.type.chars_shown, ← b.type.chars_shown, hname', hsource,
    htype, htie, hvariadic]

theorem TypeDeclaration.parameterChars_lowerIdent (ps : List String) :
    parameterChars (ps.map lowerIdent) = parameterChars ps := by
  match ps with
  | [] => rfl
  | [p] => simp [parameterChars]
  | p :: q :: ps =>
    simp only [parameterChars, List.map_cons, Name.typeVariable_lowerIdent,
      Name.map_typeVariable_lowerIdent]

theorem TypeDeclaration.chars_shown (d : TypeDeclaration) : d.shown.chars = d.chars := by
  simp only [TypeDeclaration.chars, TypeDeclaration.shown, toList_lowerIdent,
    Name.lowerChars_lowerChars, Ty.chars_shown, parameterChars_lowerIdent]
  rfl

namespace Item

mutual

theorem lines_eq_of_shown : (a b : Item) → (depth : Nat) → a.shown = b.shown →
    a.lines depth = b.lines depth
  | .external a, .external b, depth, h => by
    simp only [shown, ShownItem.external.injEq] at h
    simp [lines, Extern.chars_eq_of_shown h]
  | .typeDeclaration a, .typeDeclaration b, depth, h => by
    simp only [shown, ShownItem.typeDeclaration.injEq] at h
    simp only [lines]
    rw [← a.chars_shown, ← b.chars_shown, h]
  | .submodule m as, .submodule n bs, depth, h => by
    simp only [shown, ShownItem.submodule.injEq] at h
    have hname := congrArg String.toList h.1
    rw [toList_moduleIdent, toList_moduleIdent] at hname
    simp only [lines, hname, linesAll_eq_of_shown as bs (depth + 1) h.2]
  | .external _, .typeDeclaration _, _, h | .external _, .submodule .., _, h
  | .typeDeclaration _, .external _, _, h | .typeDeclaration _, .submodule .., _, h
  | .submodule .., .external _, _, h | .submodule .., .typeDeclaration _, _, h => by
    simp [shown] at h

/-- The lines of items only depend on what they show. -/
theorem linesAll_eq_of_shown : (as bs : List Item) → (depth : Nat) → shownAll as = shownAll bs →
    linesAll depth as = linesAll depth bs
  | [], [], _, _ => rfl
  | a :: as, b :: bs, depth, h => by
    simp only [shownAll, List.cons.injEq] at h
    simp only [linesAll, lines_eq_of_shown a b depth h.1, linesAll_eq_of_shown as bs depth h.2]
  | [], _ :: _, _, h | _ :: _, [], _, h => by simp [shownAll] at h

end

end Item

end Ambient
