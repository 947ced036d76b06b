import Ambient.Binding.Printer
/-!
# Working with target types and items

Inductions over target types and over items that go into lists by membership, and the text of a
field in one form: its name, its quantifier if it has one, and its type.
-/

namespace Ambient

namespace Ty

/-- Induction over types, with one hypothesis for each list. -/
@[elab_as_elim]
theorem induct {motive : Ty → Prop}
    (constructor : ∀ name ts, (∀ t ∈ ts, motive t) → motive (.constructor name ts))
    (ofVariable : ∀ name, motive (.variable name))
    (arrow : ∀ q ps r, (∀ p ∈ ps, motive p) → motive r → motive (.arrow q ps r))
    (tuple : ∀ ts, (∀ t ∈ ts, motive t) → motive (.tuple ts))
    (object : ∀ fs : List Field, (∀ f ∈ fs, motive f.type) → motive (.object fs)) (t : Ty) :
    motive t :=
  @Ty.rec motive (fun f => motive f.type) (fun ts => ∀ t ∈ ts, motive t)
    (fun fs => ∀ f ∈ fs, motive f.type) constructor ofVariable arrow tuple object (fun _ _ h => h)
    (fun _ h => nomatch h)
    (fun _ _ ht hts _ h => (List.mem_cons.1 h).elim (fun e => e ▸ ht) (hts _))
    (fun _ h => nomatch h)
    (fun _ _ hf hfs _ h => (List.mem_cons.1 h).elim (fun e => e ▸ hf) (hfs _)) t

/-- The type parameters that a function type declares. -/
def quantified : Ty → List String
  | .arrow q _ _ => q
  | _ => []

/-- The quantifier that a field with the given type parameters is written with. -/
def quantifierChars : List String → List Char
  | [] => []
  | v :: vs => joinedBy [' '] ((v :: vs).map Name.typeVariable) ++ ". ".toList

theorem charsAll_eq_map (tight : Bool) (ts : List Ty) : charsAll tight ts = ts.map (chars tight) := by
  induction ts with
  | nil => rfl
  | cons t ts ih => simp [charsAll, ih]

/-- Only a function is written differently in a tight place. -/
theorem chars_false {t : Ty} (h : ∀ q ps r, t ≠ .arrow q ps r) : t.chars false = t.chars true := by
  match t with
  | .constructor _ [] | .constructor _ [_] | .constructor _ (_ :: _ :: _) | .variable _ | .tuple _
  | .object [] | .object (_ :: _) => simp only [chars]
  | .arrow q ps r => exact absurd rfl (h q ps r)

theorem chars_arrow_false (q : List String) (ps : List Ty) (r : Ty) :
    (Ty.arrow q ps r).chars false = parameterChars ps ++ r.chars true := by
  simp [chars, parenthesized]

end Ty

/-- The text of a field. -/
def Field.chars (f : Field) : List Char :=
  Name.lowerChars f.name.toList ++ " : ".toList ++ Ty.quantifierChars f.type.quantified
    ++ f.type.chars false

theorem Ty.fieldChars_eq_map (fs : List Field) : fieldChars fs = fs.map Field.chars := by
  induction fs with
  | nil => rfl
  | cons f fs ih =>
    obtain ⟨name, type⟩ := f
    cases type with
    | arrow q ps r =>
      cases q <;> simp [fieldChars, Field.chars, quantified, quantifierChars, chars_arrow_false, ih]
    | _ => simp [fieldChars, Field.chars, quantified, quantifierChars, ih]

namespace Item

/-- Induction over items, with one hypothesis for the items of a module. -/
@[elab_as_elim]
theorem induct {motive : Item → Prop} (external : ∀ e, motive (.external e))
    (typeDeclaration : ∀ d, motive (.typeDeclaration d))
    (submodule : ∀ name is, (∀ i ∈ is, motive i) → motive (.submodule name is)) (i : Item) :
    motive i :=
  @Item.rec motive (fun is => ∀ i ∈ is, motive i) external typeDeclaration submodule
    (fun _ h => nomatch h)
    (fun _ _ hi his _ h => (List.mem_cons.1 h).elim (fun e => e ▸ hi) (his _)) i

theorem linesAll_eq_flatMap (depth : Nat) (is : List Item) :
    linesAll depth is = is.flatMap (lines depth) := by
  induction is with
  | nil => rfl
  | cons i is ih => simp [linesAll, ih]

end Item

/-! ## Comparing items -/

mutual

def Item.decEq : (a b : Item) → Decidable (a = b)
  | .external a, .external b => decidable_of_iff (a = b) (by simp)
  | .typeDeclaration a, .typeDeclaration b => decidable_of_iff (a = b) (by simp)
  | .submodule m as, .submodule n bs =>
    match instDecidableEqString m n, Item.decEqAll as bs with
    | isTrue h, isTrue h' => isTrue (by rw [h, h'])
    | isFalse h, _ => isFalse (by intro e; cases e; exact h rfl)
    | _, isFalse h => isFalse (by intro e; cases e; exact h rfl)
  | .external _, .typeDeclaration _ | .external _, .submodule .. | .typeDeclaration _, .external _
  | .typeDeclaration _, .submodule .. | .submodule .., .external _
  | .submodule .., .typeDeclaration _ => isFalse nofun

def Item.decEqAll : (as bs : List Item) → Decidable (as = bs)
  | [], [] => isTrue rfl
  | [], _ :: _ | _ :: _, [] => isFalse nofun
  | a :: as, b :: bs =>
    match Item.decEq a b, Item.decEqAll as bs with
    | isTrue h, isTrue h' => isTrue (by rw [h, h'])
    | isFalse h, _ => isFalse (by intro e; cases e; exact h rfl)
    | _, isFalse h => isFalse (by intro e; cases e; exact h rfl)

end

instance : DecidableEq Item := Item.decEq

end Ambient
