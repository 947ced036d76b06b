import Ambient.Proofs.Shown
/-!
# Reading bindings back from their text

The text of bindings is unambiguous. We give a reader for it and prove that reading the text of a
type, of a line or of whole bindings gives back what they show, so two bindings with the same text
show the same.

A type in a tight place is an atom with any number of type names behind it, each of which applies a
constructor to what stands before it. The reader therefore reads an atom and then the names behind
it (`applied`), and the main lemma is stated with whatever names follow: reading the text of `t` and
then `rest` is the same as applying the names at the start of `rest` to `t` (`tight_chars`).
-/

namespace Ambient.Reading

open Name (isIdentChar isPathChar startsIdent typePath typeVariable lowerChars)

/-- Reads something from the start of a text and gives it with the text behind it. -/
abbrev Reader (α : Type) := List Char → Option (α × List Char)

/-! ## Pieces of text -/

/-- What stands behind `start` in a text that starts with it. -/
def behind : List Char → List Char → Option (List Char)
  | [], cs => some cs
  | _ :: _, [] => none
  | d :: start, c :: cs => if c = d then behind start cs else none

@[simp]
theorem behind_append (start cs : List Char) : behind start (start ++ cs) = some cs := by
  induction start with
  | nil => rfl
  | cons d start ih => simp [behind, ih]

/-- One or more things with `separator` between them, at most `n`. -/
def sepBy {α : Type} (separator : List Char) (item : Reader α) : Nat → Reader (List α)
  | 0, _ => none
  | n + 1, cs => do
    let (a, cs) ← item cs
    match behind separator cs with
    | none => return ([a], cs)
    | some cs =>
      let (as, cs) ← sepBy separator item n cs
      return (a :: as, cs)

/-- Reading a joined list item by item. `follows` is what an item must be followed by to be read
right. -/
theorem sepBy_joinedBy {α β : Type} {separator : List Char} {item : Reader α}
    (follows : List Char → Prop) {text : β → List Char} {value : β → α} {xs : List β}
    (hitem : ∀ x ∈ xs, ∀ rest, follows rest → item (text x ++ rest) = some (value x, rest))
    (hsep : ∀ cs, follows (separator ++ cs)) (hne : xs ≠ []) {n : Nat} (hn : xs.length ≤ n)
    {rest : List Char} (hrest : follows rest) (hend : behind separator rest = none) :
    sepBy separator item n (joinedBy separator (xs.map text) ++ rest)
      = some (xs.map value, rest) := by
  induction xs generalizing n with
  | nil => exact absurd rfl hne
  | cons x xs ih =>
    obtain ⟨m, rfl⟩ : ∃ m, n = m + 1 := ⟨n - 1, by simp only [List.length_cons] at hn; omega⟩
    cases xs with
    | nil =>
      simp only [List.map_cons, List.map_nil, joinedBy, sepBy]
      rw [hitem x (by simp) rest hrest]
      simp [hend]
    | cons y ys =>
      have htail := ih (fun z hz => hitem z (by simp [hz])) (by simp) (n := m)
        (by simp only [List.length_cons] at hn ⊢; omega)
      simp only [List.map_cons, joinedBy, sepBy, List.append_assoc] at htail ⊢
      rw [hitem x (by simp) _ (hsep _)]
      simp [htail]

/-! ## Names -/

/-- A text that does not go on with a character of a path. -/
def EndsPath (rest : List Char) : Prop := ∀ c ∈ rest.head?, ¬ isPathChar c

theorem EndsPath.not_isIdentChar {rest : List Char} (h : EndsPath rest) :
    ∀ c ∈ rest.head?, ¬ isIdentChar c := fun c hc hi => h c hc (by simp [isPathChar, hi])

/-- An identifier. -/
def readIdent : Reader String := fun cs =>
  some (String.ofList (cs.takeWhile isIdentChar), cs.dropWhile isIdentChar)

/-- The path of a type. -/
def readPath : Reader String := fun cs =>
  some (String.ofList (cs.takeWhile isPathChar), cs.dropWhile isPathChar)

/-- A type variable. -/
def readVariable : Reader String
  | '\x27' :: cs => readIdent cs
  | _ => none

theorem readIdent_of_all {cs rest : List Char} (hcs : ∀ c ∈ cs, isIdentChar c)
    (h : ∀ c ∈ rest.head?, ¬ isIdentChar c) : readIdent (cs ++ rest) = some (String.ofList cs, rest) := by
  simp only [readIdent, takeWhile_append_stop hcs h, dropWhile_append_stop hcs h]

theorem readIdent_lowerChars (name : String) {rest : List Char}
    (h : ∀ c ∈ rest.head?, ¬ isIdentChar c) :
    readIdent (lowerChars name.toList ++ rest) = some (lowerIdent name, rest) :=
  readIdent_of_all (fun _ hc => Name.isIdentChar_of_mem_lowerChars hc) h

theorem readVariable_typeVariable (name : String) {rest : List Char}
    (h : ∀ c ∈ rest.head?, ¬ isIdentChar c) :
    readVariable (typeVariable name ++ rest) = some (lowerIdent name, rest) :=
  readIdent_lowerChars name h

theorem readPath_typePath (name : String) {rest : List Char} (h : EndsPath rest) :
    readPath (typePath name ++ rest) = some (String.ofList (typePath name), rest) := by
  have hcs : ∀ c ∈ typePath name, isPathChar c := fun c hc => Name.isPathChar_of_mem_typePath hc
  simp only [readPath, takeWhile_append_stop hcs h, dropWhile_append_stop hcs h]

/-! ## Types -/

/-- Applies the type constructors whose names stand at the start of a text, each behind a space. -/
def applied (t : Ty) : List Char → Ty × List Char
  | ' ' :: c :: cs =>
    if startsIdent c then
      applied (.constructor (String.ofList ((c :: cs).takeWhile isPathChar)) [t])
        ((c :: cs).dropWhile isPathChar)
    else (t, ' ' :: c :: cs)
  | cs => (t, cs)
termination_by cs => cs.length
decreasing_by
  have := (List.dropWhile_sublist isPathChar (l := c :: cs)).length_le
  simp only [List.length_cons] at this ⊢
  omega

/-- A text at which a type ends: neither its last name nor the type itself goes on. -/
def endsType : List Char → Bool
  | ' ' :: c :: _ => !startsIdent c
  | c :: _ => !isPathChar c
  | [] => true

theorem endsPath_of_endsType {rest : List Char} (h : endsType rest) : EndsPath rest := by
  intro c hc
  cases rest with
  | nil => cases hc
  | cons d ds =>
    cases hc
    by_cases hd : c = ' '
    · subst hd; decide
    · have : endsType (c :: ds) = !isPathChar c := by
        simp only [endsType]
        split <;> simp_all
      rw [this] at h
      simpa using h

theorem applied_of_endsType (t : Ty) {rest : List Char} (h : endsType rest) :
    applied t rest = (t, rest) := by
  rw [applied.eq_def]
  split
  · rename_i c cs
    simp only [endsType, Bool.not_eq_true'] at h
    simp [h]
  · rfl

theorem applied_typePath (t : Ty) (name : String) {rest : List Char} (h : EndsPath rest) :
    applied t (' ' :: (typePath name ++ rest))
      = applied (.constructor (String.ofList (typePath name)) [t]) rest := by
  have hcs : ∀ c ∈ typePath name, isPathChar c := fun c hc => Name.isPathChar_of_mem_typePath hc
  obtain ⟨c, cs, hc, hstart⟩ := Name.typePath_eq_cons name
  conv_lhs => rw [applied.eq_def, hc]
  simp only [List.cons_append, hstart, if_true]
  rw [← List.cons_append, ← hc, takeWhile_append_stop hcs h, dropWhile_append_stop hcs h]

/-- The type that a chain of types with arrows between them stands for. -/
def ofChain (quantified : List String) (ts : List Ty) : Ty :=
  .arrow quantified ts.dropLast (ts.getLast?.getD .unit)

/-- The type that a chain stands for where it may be a single type. -/
def ofLooseChain : List Ty → Ty
  | [t] => t
  | ts => ofChain [] ts

/-- Whether the text goes on as behind the first variable of a quantifier. -/
def quantifies : List Char → Bool
  | '.' :: _ => true
  | ' ' :: '\x27' :: _ => true
  | _ => false

section Levels

-- `inner` reads the types one level further in, and no list is longer than `n`.
variable (n : Nat) (inner : Reader Ty)

/-- A type where an arrow needs no parentheses. -/
def loose : Reader Ty := fun cs => do
  let (ts, cs) ← sepBy " -> ".toList inner n cs
  return (ofLooseChain ts, cs)

/-- What stands behind an opening parenthesis: a function, a tuple, or the arguments of a type
constructor and its name. -/
def enclosed : Reader Ty := fun cs => do
  let (t, cs) ← loose n inner cs
  match cs with
  | ')' :: cs => return (t, cs)
  | ' ' :: '*' :: ' ' :: cs =>
    let (ts, cs) ← sepBy " * ".toList inner n cs
    let cs ← behind [')'] cs
    return (.tuple (t :: ts), cs)
  | ',' :: ' ' :: cs =>
    let (ts, cs) ← sepBy ", ".toList (loose n inner) n cs
    let cs ← behind ") ".toList cs
    let (name, cs) ← readPath cs
    return (.constructor name (t :: ts), cs)
  | _ => none

/-- A field of an object type. A quantifier looks like a variable at first. -/
def field : Reader Field := fun cs => do
  let (name, cs) ← readIdent cs
  let cs ← behind " : ".toList cs
  let (t, rest) ← loose n inner cs
  if quantifies rest then
    let (vs, cs) ← sepBy [' '] readVariable n cs
    let cs ← behind ". ".toList cs
    let (ts, cs) ← sepBy " -> ".toList inner n cs
    return (⟨name, ofChain vs ts⟩, cs)
  else return (⟨name, t⟩, rest)

/-- What stands behind an opening angle bracket. -/
def fields : Reader Ty := fun cs =>
  match behind " > Js.t".toList cs with
  | some cs => some (.object [], cs)
  | none => do
    let cs ← behind [' '] cs
    let (fs, cs) ← sepBy "; ".toList (field n inner) n cs
    let cs ← behind " > Js.t".toList cs
    return (.object fs, cs)

/-- A type without the names behind it that are applied to it. -/
def atom : Reader Ty
  | '\x27' :: cs => do
    let (name, cs) ← readIdent cs
    return (.variable name, cs)
  | '(' :: cs => enclosed n inner cs
  | '<' :: cs => fields n inner cs
  | cs => do
    let (name, cs) ← readPath cs
    return (.constructor name [], cs)

end Levels

/-- A type where an arrow needs parentheses, nested at most `n` deep. -/
def tight : Nat → Reader Ty
  | 0, _ => none
  | n + 1, cs => do
    let (t, cs) ← atom n (tight n) cs
    return applied t cs

/-! ## Reading a type back -/

end Ambient.Reading

namespace Ambient.Ty

mutual

/-- A bound on the depth of a type and on the lengths of the lists in it. -/
def size : Ty → Nat
  | .constructor _ arguments => 1 + sizeAll arguments
  | .variable _ => 1
  | .arrow quantified parameters result =>
    2 + quantified.length + sizeAll parameters + result.size
  | .tuple elements => 1 + sizeAll elements
  | .object fields => 1 + sizeFields fields

def sizeAll : List Ty → Nat
  | [] => 0
  | t :: ts => 1 + t.size + sizeAll ts

def sizeFields : List Field → Nat
  | [] => 0
  | ⟨_, t⟩ :: fs => 1 + t.size + sizeFields fs

end

theorem size_pos (t : Ty) : 0 < t.size := by cases t <;> simp only [size] <;> omega

theorem length_le_sizeAll (ts : List Ty) : ts.length ≤ sizeAll ts := by
  induction ts with
  | nil => simp [sizeAll]
  | cons t ts ih => simp only [List.length_cons, sizeAll]; omega

theorem size_lt_sizeAll {ts : List Ty} {t : Ty} (h : t ∈ ts) : t.size < sizeAll ts := by
  induction ts with
  | nil => cases h
  | cons u us ih =>
    simp only [sizeAll]
    rcases List.mem_cons.1 h with rfl | h
    · omega
    · have := ih h; omega

theorem length_le_sizeFields (fs : List Field) : fs.length ≤ sizeFields fs := by
  induction fs with
  | nil => simp [sizeFields]
  | cons f fs ih =>
    obtain ⟨name, t⟩ := f
    simp only [List.length_cons, sizeFields]
    omega

theorem size_lt_sizeFields {fs : List Field} {f : Field} (h : f ∈ fs) :
    f.type.size < sizeFields fs := by
  induction fs with
  | nil => cases h
  | cons g gs ih =>
    obtain ⟨name, t⟩ := g
    simp only [sizeFields]
    rcases List.mem_cons.1 h with rfl | h
    · simp only; omega
    · have := ih h; omega

/-- The text of a function is a chain of tight types. -/
theorem parameterChars_append (ps : List Ty) (r : Ty) :
    parameterChars ps ++ r.chars true = joinedBy " -> ".toList ((ps ++ [r]).map (chars true)) := by
  induction ps with
  | nil => rfl
  | cons p ps ih =>
    obtain ⟨a, as, ha⟩ : ∃ a as, (ps ++ [r]).map (chars true) = a :: as := by
      cases ps <;> exact ⟨_, _, rfl⟩
    rw [List.cons_append, List.map_cons, ha, joinedBy, ← ha, ← ih, parameterChars,
      List.append_assoc]
    simp

end Ambient.Ty

namespace Ambient.Reading

open Name (isIdentChar isPathChar startsIdent typePath typeVariable lowerChars)

theorem atom_typePath (n : Nat) (inner : Reader Ty) (name : String) {rest : List Char}
    (h : EndsPath rest) :
    atom n inner (typePath name ++ rest)
      = some (.constructor (String.ofList (typePath name)) [], rest) := by
  obtain ⟨c, cs, hc, hstart⟩ := Name.typePath_eq_cons name
  have hread := readPath_typePath name h
  rw [hc, List.cons_append] at hread ⊢
  unfold atom
  split
  · rename_i heq; cases heq; exact absurd hstart (by decide)
  · rename_i heq; cases heq; exact absurd hstart (by decide)
  · rename_i heq; cases heq; exact absurd hstart (by decide)
  · rw [hread]; rfl

theorem ofChain_concat (q : List String) (ts : List Ty) (t : Ty) :
    ofChain q (ts ++ [t]) = .arrow q ts t := by
  simp [ofChain]

theorem ofLooseChain_concat {ts : List Ty} (h : ts ≠ []) (t : Ty) :
    ofLooseChain (ts ++ [t]) = .arrow [] ts t := by
  obtain ⟨u, us, rfl⟩ := List.exists_cons_of_ne_nil h
  obtain ⟨v, vs, hv⟩ : ∃ v vs, us ++ [t] = v :: vs := by cases us <;> exact ⟨_, _, rfl⟩
  rw [← ofChain_concat, List.cons_append, hv]
  rfl

/-- `inner` reads the text of every proper type smaller than `k`. A variable may be followed by the
dot of a quantifier. -/
structure ReadsBelow (inner : Reader Ty) (k : Nat) : Prop where
  type : ∀ t : Ty, t.size < k → t.isProper → ∀ rest, EndsPath rest →
    inner (t.chars true ++ rest) = some (applied t.shown rest)
  ofVariable : 1 < k → ∀ name rest, (∀ c ∈ rest.head?, ¬ isIdentChar c) →
    inner (typeVariable name ++ rest) = some (applied (.variable (lowerIdent name)) rest)

/-- A text at which a type ends where it may also be a function. -/
def endsLoose (rest : List Char) : Bool := endsType rest && (behind " -> ".toList rest).isNone

section Levels

variable {n k : Nat} {inner : Reader Ty}

theorem ReadsBelow.read (h : ReadsBelow inner k) {t : Ty} (ht : t.size < k) (hp : t.isProper)
    {rest : List Char} (hrest : endsType rest) :
    inner (t.chars true ++ rest) = some (t.shown, rest) := by
  rw [h.type t ht hp rest (endsPath_of_endsType hrest), applied_of_endsType _ hrest]

/-- A list of tight types, joined by something that ends a type. -/
theorem ReadsBelow.sepBy (h : ReadsBelow inner k) (ts : List Ty) (hts : ∀ t ∈ ts, t.size < k)
    (hp : ∀ t ∈ ts, t.isProper) (hne : ts ≠ []) (hn : ts.length ≤ n) (separator : List Char)
    (hsep : ∀ cs, endsType (separator ++ cs)) (rest : List Char) (hrest : endsType rest)
    (hend : behind separator rest = none) :
    Reading.sepBy separator inner n (joinedBy separator (ts.map (Ty.chars true)) ++ rest)
      = some (ts.map Ty.shown, rest) :=
  sepBy_joinedBy (fun cs => endsType cs) (fun t ht _ hcs => h.read (hts t ht) (hp t ht) hcs) hsep hne
    hn hrest hend

/-- The parameters and the result of a function. -/
theorem ReadsBelow.chain (h : ReadsBelow inner k) (hk : k ≤ n + 1) {q : List String} {ps : List Ty}
    {r : Ty} (ht : (Ty.arrow q ps r).size ≤ k) (hp : (Ty.arrow q ps r).isProper)
    (rest : List Char) (hrest : endsLoose rest) :
    Reading.sepBy " -> ".toList inner n (Ty.parameterChars ps ++ r.chars true ++ rest)
      = some (ps.map Ty.shown ++ [r.shown], rest) := by
  simp only [endsLoose, Bool.and_eq_true, Option.isNone_iff_eq_none] at hrest
  simp only [Ty.isProper, Bool.and_eq_true, Ty.allProper_iff] at hp
  have hlen := Ty.length_le_sizeAll ps
  have hpos := r.size_pos
  simp only [Ty.size] at ht
  have hsmall : ∀ u ∈ ps ++ [r], u.size < k := by
    intro u hu
    rcases List.mem_append.1 hu with hu | hu
    · have := Ty.size_lt_sizeAll hu; omega
    · rw [List.mem_singleton.1 hu]; omega
  have hproper : ∀ u ∈ ps ++ [r], u.isProper := by
    intro u hu
    rcases List.mem_append.1 hu with hu | hu
    · exact hp.1.2 u hu
    · rw [List.mem_singleton.1 hu]; exact hp.2
  have hn : (ps ++ [r]).length ≤ n := by
    simp only [List.length_append, List.length_singleton]; omega
  rw [Ty.parameterChars_append, h.sepBy (ps ++ [r]) hsmall hproper (by simp) hn " -> ".toList
    (fun cs => rfl) rest hrest.1 hrest.2]
  simp

/-- A tight type read where it might have been a function. -/
theorem loose_chars_true (h : ReadsBelow inner k) (hk : k ≤ n + 1) {t : Ty} (ht : t.size < k)
    (hp : t.isProper) (rest : List Char) (hrest : endsLoose rest) :
    loose n inner (t.chars true ++ rest) = some (t.shown, rest) := by
  simp only [endsLoose, Bool.and_eq_true, Option.isNone_iff_eq_none] at hrest
  have hn : [t].length ≤ n := by have := t.size_pos; simp; omega
  have hread := h.sepBy [t] (by simpa using ht) (by simpa using hp) (by simp) hn " -> ".toList
    (fun cs => rfl) rest hrest.1 hrest.2
  simp only [List.map_cons, List.map_nil, joinedBy] at hread
  unfold loose
  rw [hread]
  rfl

theorem loose_function (h : ReadsBelow inner k) (hk : k ≤ n + 1) {q : List String} {ps : List Ty}
    {r : Ty} (ht : (Ty.arrow q ps r).size ≤ k) (hp : (Ty.arrow q ps r).isProper)
    (rest : List Char) (hrest : endsLoose rest) :
    loose n inner (Ty.parameterChars ps ++ r.chars true ++ rest)
      = some ((Ty.arrow q ps r).shown, rest) := by
  have hne : ps ≠ [] := by
    simp only [Ty.isProper, Bool.and_eq_true] at hp
    simpa using hp.1.1
  unfold loose
  rw [h.chain hk ht hp rest hrest]
  simp only [Option.bind_eq_bind, Option.bind_some]
  rw [ofLooseChain_concat (by simpa using hne)]
  simp [Ty.shown, Ty.shownAll_eq_map]

theorem loose_chars (h : ReadsBelow inner k) (hk : k ≤ n + 1) {t : Ty} (ht : t.size < k)
    (hp : t.isProper) (rest : List Char) (hrest : endsLoose rest) :
    loose n inner (t.chars false ++ rest) = some (t.shown, rest) := by
  by_cases hfun : ∃ q ps r, t = .arrow q ps r
  · obtain ⟨q, ps, r, rfl⟩ := hfun
    rw [Ty.chars_arrow_false]
    exact loose_function h hk (Nat.le_of_lt ht) hp rest hrest
  · rw [Ty.chars_false fun q ps r heq => hfun ⟨q, ps, r, heq⟩]
    exact loose_chars_true h hk ht hp rest hrest

theorem enclosed_function (h : ReadsBelow inner k) (hk : k ≤ n + 1) {q : List String} {ps : List Ty}
    {r : Ty} (ht : (Ty.arrow q ps r).size ≤ k) (hp : (Ty.arrow q ps r).isProper)
    (rest : List Char) :
    enclosed n inner (Ty.parameterChars ps ++ r.chars true ++ ')' :: rest)
      = some ((Ty.arrow q ps r).shown, rest) := by
  unfold enclosed
  rw [loose_function h hk ht hp (')' :: rest) rfl]
  rfl

theorem enclosed_tuple (h : ReadsBelow inner k) (hk : k ≤ n + 1) {ts : List Ty}
    (ht : Ty.sizeAll ts ≤ k) (hp : (Ty.tuple ts).isProper) (rest : List Char) :
    enclosed n inner (joinedBy " * ".toList (ts.map (Ty.chars true)) ++ ')' :: rest)
      = some ((Ty.tuple ts).shown, rest) := by
  simp only [Ty.isProper, Bool.and_eq_true, decide_eq_true_eq, Ty.allProper_iff] at hp
  obtain ⟨htwo, hp⟩ := hp
  match ts, htwo with
  | t :: u :: us, _ =>
    have hsmall : ∀ v ∈ t :: u :: us, v.size < k := fun v hv =>
      Nat.lt_of_lt_of_le (Ty.size_lt_sizeAll hv) ht
    have hn : (u :: us).length ≤ n := by
      have := Ty.length_le_sizeAll (u :: us)
      simp only [Ty.sizeAll] at ht this
      omega
    -- The first element is read before it is known to be one.
    have hfirst := loose_chars_true h hk (hsmall t (by simp)) (hp t (by simp)) (" * ".toList
      ++ (joinedBy " * ".toList ((u :: us).map (Ty.chars true)) ++ ')' :: rest)) rfl
    have hothers := h.sepBy (u :: us) (fun v hv => hsmall v (by simp [hv]))
      (fun v hv => hp v (by simp [hv])) (by simp) hn " * ".toList (fun cs => rfl) (')' :: rest) rfl
      rfl
    have htext : joinedBy " * ".toList ((t :: u :: us).map (Ty.chars true)) ++ ')' :: rest
        = t.chars true ++ (" * ".toList
          ++ (joinedBy " * ".toList ((u :: us).map (Ty.chars true)) ++ ')' :: rest)) := by
      simp only [List.map_cons, joinedBy, List.append_assoc]
    unfold enclosed
    rw [htext, hfirst]
    change ((sepBy " * ".toList inner n
      (joinedBy " * ".toList ((u :: us).map (Ty.chars true)) ++ ')' :: rest)).bind fun (ts, cs) =>
        (behind [')'] cs).bind fun cs => some (Ty.tuple (t.shown :: ts), cs)) = _
    rw [hothers]
    simp [behind, Ty.shown, Ty.shownAll_eq_map]

theorem enclosed_arguments (h : ReadsBelow inner k) (hk : k ≤ n + 1) {t u : Ty} {us : List Ty}
    (ht : Ty.sizeAll (t :: u :: us) ≤ k) (hp : ∀ v ∈ t :: u :: us, v.isProper) (name : String)
    {rest : List Char} (hrest : EndsPath rest) :
    enclosed n inner (joinedBy ", ".toList ((t :: u :: us).map (Ty.chars false))
        ++ (") ".toList ++ (typePath name ++ rest)))
      = some ((Ty.constructor name (t :: u :: us)).shown, rest) := by
  have hsmall : ∀ v ∈ t :: u :: us, v.size < k := fun v hv =>
    Nat.lt_of_lt_of_le (Ty.size_lt_sizeAll hv) ht
  have hn : (u :: us).length ≤ n := by
    have := Ty.length_le_sizeAll (u :: us)
    simp only [Ty.sizeAll] at ht this
    omega
  -- As in a tuple, the first one is read before it is known that others follow.
  have hfirst := loose_chars h hk (hsmall t (by simp)) (hp t (by simp)) (", ".toList
    ++ (joinedBy ", ".toList ((u :: us).map (Ty.chars false))
      ++ (") ".toList ++ (typePath name ++ rest)))) rfl
  have hothers : sepBy ", ".toList (loose n inner) n
      (joinedBy ", ".toList ((u :: us).map (Ty.chars false)) ++ (") ".toList ++ (typePath name ++ rest)))
        = some ((u :: us).map Ty.shown, ") ".toList ++ (typePath name ++ rest)) :=
    sepBy_joinedBy (fun cs => endsLoose cs)
      (fun v hv cs hcs => loose_chars h hk (hsmall v (by simp [hv])) (hp v (by simp [hv])) cs hcs)
      (fun cs => rfl) (by simp) hn rfl rfl
  have htext : joinedBy ", ".toList ((t :: u :: us).map (Ty.chars false))
        ++ (") ".toList ++ (typePath name ++ rest))
      = t.chars false ++ (", ".toList ++ (joinedBy ", ".toList ((u :: us).map (Ty.chars false))
          ++ (") ".toList ++ (typePath name ++ rest)))) := by
    simp only [List.map_cons, joinedBy, List.append_assoc]
  unfold enclosed
  rw [htext, hfirst]
  change ((sepBy ", ".toList (loose n inner) n (joinedBy ", ".toList ((u :: us).map (Ty.chars false))
      ++ (") ".toList ++ (typePath name ++ rest)))).bind fun (ts, cs) =>
    (behind ") ".toList cs).bind fun cs => (readPath cs).bind fun (name, cs) =>
      some (Ty.constructor name (t.shown :: ts), cs)) = _
  rw [hothers]
  simp only [Option.bind_some, behind_append, readPath_typePath name hrest]
  simp [Ty.shown, Ty.shownAll_eq_map]

/-- A text at which a field ends. -/
def endsField (rest : List Char) : Bool := endsLoose rest && !quantifies rest

/-- The variables of a quantifier start like a type that is a variable. -/
theorem loose_quantifier (h : ReadsBelow inner k) (hk : k ≤ n + 1) (h1 : 1 < k) (v : String)
    (vs : List String) (cs : List Char) :
    ∃ t rest, loose n inner (joinedBy [' '] ((v :: vs).map typeVariable) ++ (". ".toList ++ cs))
      = some (t, rest) ∧ quantifies rest := by
  obtain ⟨m, rfl⟩ : ∃ m, n = m + 1 := ⟨n - 1, by omega⟩
  have hloose : ∀ rest, quantifies rest → loose (m + 1) inner (typeVariable v ++ rest)
      = some (.variable (lowerIdent v), rest) := by
    intro rest hq
    -- Behind a dot or before one more variable, nothing is applied and no function goes on.
    have hstop : (∀ c ∈ rest.head?, ¬ isIdentChar c) ∧ behind " -> ".toList rest = none ∧
        applied (.variable (lowerIdent v)) rest = (.variable (lowerIdent v), rest) := by
      unfold quantifies at hq
      split at hq
      · exact ⟨by simp; decide, rfl, by rw [applied.eq_def]; rfl⟩
      · exact ⟨by simp; decide, rfl, applied_of_endsType _ rfl⟩
      · cases hq
    unfold loose sepBy
    rw [h.ofVariable h1 v rest hstop.1, hstop.2.2]
    simp only [Option.bind_eq_bind, Option.bind_some, hstop.2.1]
    rfl
  cases vs with
  | nil => exact ⟨_, _, hloose (". ".toList ++ cs) rfl, rfl⟩
  | cons w ws =>
    have htext : joinedBy [' '] ((v :: w :: ws).map typeVariable) ++ (". ".toList ++ cs)
        = typeVariable v ++ (' ' :: (joinedBy [' '] ((w :: ws).map typeVariable)
          ++ (". ".toList ++ cs))) := by
      simp only [List.map_cons, joinedBy, List.append_assoc, List.cons_append, List.nil_append]
    rw [htext]
    have hq : quantifies (' ' :: (joinedBy [' '] ((w :: ws).map typeVariable)
        ++ (". ".toList ++ cs))) := by cases ws <;> rfl
    exact ⟨_, _, hloose _ hq, hq⟩

theorem field_chars (h : ReadsBelow inner k) (hk : k ≤ n + 1) {f : Field} (ht : f.type.size < k)
    (hp : f.type.isProper) (rest : List Char) (hrest : endsField rest) :
    field n inner (f.chars ++ rest) = some (f.shown, rest) := by
  simp only [endsField, Bool.and_eq_true, Bool.not_eq_true'] at hrest
  obtain ⟨hends, hplain⟩ := hrest
  have hname : ∀ cs, readIdent (lowerChars f.name.toList ++ (" : ".toList ++ cs))
      = some (lowerIdent f.name, " : ".toList ++ cs) := fun cs =>
    readIdent_lowerChars f.name (by simp; decide)
  cases hq : f.type.quantified with
  | nil =>
    have hshown : f.type.shown.quantifiedBy [] = f.type.shown := by
      cases f.type <;> rfl
    unfold field
    simp only [Field.chars, Field.shown, hq, Ty.quantifierChars, List.append_nil, List.append_assoc,
      List.map_nil, hshown, hname, Option.bind_eq_bind, Option.bind_some, behind_append,
      loose_chars h hk ht hp rest hends, hplain]
    rfl
  | cons v vs =>
    -- Only a function has type parameters of its own.
    obtain ⟨name, type⟩ := f
    cases type with
    | arrow q ps r =>
      obtain rfl : q = v :: vs := hq
      have h1 : 1 < k := by simp only [Ty.size] at ht; omega
      obtain ⟨t, rest', hloose, hquantifies⟩ := loose_quantifier h hk h1 v vs
        (Ty.parameterChars ps ++ r.chars true ++ rest)
      have hvars : sepBy [' '] readVariable n (joinedBy [' '] ((v :: vs).map typeVariable)
          ++ (". ".toList ++ (Ty.parameterChars ps ++ r.chars true ++ rest)))
          = some ((v :: vs).map lowerIdent,
            ". ".toList ++ (Ty.parameterChars ps ++ r.chars true ++ rest)) :=
        sepBy_joinedBy (fun cs => ∀ c ∈ cs.head?, ¬ isIdentChar c)
          (fun w _ _ hcs => readVariable_typeVariable w hcs) (fun cs => by simp; decide) (by simp)
          (by simp only [Ty.size, List.length_cons] at ht ⊢; omega) (by simp; decide) rfl
      have htext : Field.chars ⟨name, .arrow (v :: vs) ps r⟩ ++ rest
          = lowerChars name.toList ++ (" : ".toList ++ (joinedBy [' '] ((v :: vs).map typeVariable)
            ++ (". ".toList ++ (Ty.parameterChars ps ++ r.chars true ++ rest)))) := by
        simp only [Field.chars, Ty.quantified, Ty.quantifierChars, Ty.chars_arrow_false,
          List.append_assoc]
      unfold field
      rw [htext, hname]
      simp only [Option.bind_eq_bind, Option.bind_some, behind_append, hloose, hquantifies, if_true,
        hvars, h.chain hk (Nat.le_of_lt ht) hp rest hends, ofChain_concat]
      simp [Field.shown, Ty.shown, Ty.quantifiedBy, Ty.quantified, Ty.shownAll_eq_map]
    | _ => cases hq

theorem field_chars_eq_cons (f : Field) : ∃ c cs, f.chars = c :: cs ∧ c ≠ '>' := by
  obtain ⟨c, cs, hc, hlow⟩ := Name.lowerChars_eq_cons f.name.toList
  have hne : c ≠ '>' := by rintro rfl; exact absurd hlow (by decide)
  exact ⟨c, _, by rw [Field.chars, hc]; rfl, hne⟩

theorem fields_chars (h : ReadsBelow inner k) (hk : k ≤ n + 1) {f : Field} {fs : List Field}
    (ht : Ty.sizeFields (f :: fs) ≤ k) (hp : ∀ g ∈ f :: fs, g.type.isProper) (rest : List Char) :
    fields n inner (' ' :: (joinedBy "; ".toList ((f :: fs).map Field.chars)
        ++ (" > Js.t".toList ++ rest)))
      = some ((Ty.object (f :: fs)).shown, rest) := by
  have hsmall : ∀ g ∈ f :: fs, g.type.size < k := fun g hg =>
    Nat.lt_of_lt_of_le (Ty.size_lt_sizeFields hg) ht
  have hlen : (f :: fs).length ≤ n := by
    obtain ⟨name, type⟩ := f
    have := type.size_pos
    have := Ty.length_le_sizeFields fs
    simp only [Ty.sizeFields, List.length_cons] at ht ⊢
    omega
  have hread : sepBy "; ".toList (field n inner) n
      (joinedBy "; ".toList ((f :: fs).map Field.chars) ++ (" > Js.t".toList ++ rest))
        = some ((f :: fs).map Field.shown, " > Js.t".toList ++ rest) :=
    sepBy_joinedBy (fun cs => endsField cs)
      (fun g hg cs hcs => field_chars h hk (hsmall g hg) (hp g hg) cs hcs) (fun cs => rfl) (by simp)
      hlen rfl rfl
  -- The object without fields is tried first, and no field starts with `>`.
  have hopen : behind " > Js.t".toList (' ' :: (joinedBy "; ".toList ((f :: fs).map Field.chars)
      ++ (" > Js.t".toList ++ rest))) = none := by
    obtain ⟨c, cs, hc, hne⟩ := field_chars_eq_cons f
    have hfirst : ∃ ds, joinedBy "; ".toList ((f :: fs).map Field.chars) = c :: ds := by
      cases fs with
      | nil => exact ⟨cs, by simp [joinedBy, hc]⟩
      | cons g gs => exact ⟨_, by simp only [List.map_cons, joinedBy, hc]; rfl⟩
    obtain ⟨ds, hds⟩ := hfirst
    rw [hds, List.cons_append]
    change (if c = '>' then _ else none) = none
    rw [if_neg hne]
  unfold fields
  rw [hopen]
  simp only [behind, if_true, Option.bind_eq_bind, Option.bind_some, hread, behind_append]
  simp [Ty.shown, Ty.shownFields_eq_map]

end Levels

theorem tight_typeVariable (n : Nat) (name : String) {rest : List Char}
    (h : ∀ c ∈ rest.head?, ¬ isIdentChar c) :
    tight (n + 1) (typeVariable name ++ rest)
      = some (applied (.variable (lowerIdent name)) rest) := by
  simp only [tight, typeVariable, List.cons_append, atom, readIdent_lowerChars name h]
  rfl

/-- Reading the text of a type and whatever follows it. -/
theorem tight_chars {t : Ty} (hp : t.isProper) {n : Nat} (hn : t.size ≤ n) {rest : List Char}
    (hrest : EndsPath rest) : tight n (t.chars true ++ rest) = some (applied t.shown rest) := by
  -- On the size: it goes down into the lists inside a type too, and the fuel `n` is never below it.
  induction hs : t.size using Nat.strongRecOn generalizing t n rest with
  | ind s ih =>
    subst hs
    obtain ⟨m, rfl⟩ : ∃ m, n = m + 1 := ⟨n - 1, by have := t.size_pos; omega⟩
    have hinner : ReadsBelow (tight m) t.size :=
      { type := fun u hu hpu cs hcs => ih u.size hu hpu (by omega) hcs rfl
        ofVariable := fun h1 name cs hcs => by
          obtain ⟨i, rfl⟩ : ∃ i, m = i + 1 := ⟨m - 1, by omega⟩
          exact tight_typeVariable i name hcs }
    match t with
    | .constructor name [] =>
      simp only [tight, Ty.chars, atom_typePath m _ name hrest]
      rfl
    | .constructor name [u] =>
      have hu : u.size < (Ty.constructor name [u]).size := by
        simp only [Ty.size, Ty.sizeAll]; omega
      have hpu : u.isProper := by simpa [Ty.isProper, Ty.allProper] using hp
      -- A single argument comes without brackets: it is read first, and the path is applied to it.
      have hspace : EndsPath (' ' :: (typePath name ++ rest)) := by intro c hc; cases hc; decide
      have hread := ih u.size hu hpu (n := m + 1) (by omega) hspace rfl
      simp only [Ty.chars, List.append_assoc, List.cons_append]
      rw [hread, applied_typePath _ _ hrest]
      rfl
    | .constructor name (u :: v :: vs) =>
      simp only [Ty.isProper, Ty.allProper_iff] at hp
      have hread := enclosed_arguments hinner hn (by simp only [Ty.size]; omega) hp name hrest
      simp only [tight, Ty.chars, Ty.charsAll_eq_map, List.append_assoc, List.cons_append, atom,
        hread]
      rfl
    | .variable name =>
      simp only [Ty.chars, tight_typeVariable m name hrest.not_isIdentChar]
      rfl
    | .arrow q ps r =>
      have hread := enclosed_function hinner hn (Nat.le_refl _) hp rest
      simp only [tight, Ty.chars, Ty.parenthesized, if_true, List.append_assoc, List.cons_append,
        List.nil_append, atom] at hread ⊢
      rw [hread]
      rfl
    | .tuple ts =>
      have hread := enclosed_tuple hinner hn (by simp only [Ty.size]; omega) hp rest
      simp only [tight, Ty.chars, Ty.charsAll_eq_map, List.append_assoc, List.cons_append,
        List.nil_append, atom, hread]
      rfl
    | .object [] => rfl
    | .object (f :: fs) =>
      simp only [Ty.isProper, Ty.allProperFields_iff] at hp
      have hread := fields_chars hinner hn (by simp only [Ty.size]; omega) hp rest
      have htext : (Ty.object (f :: fs)).chars true ++ rest
          = '<' :: ' ' :: (joinedBy "; ".toList ((f :: fs).map Field.chars)
            ++ (" > Js.t".toList ++ rest)) := by
        simp only [Ty.chars, Ty.fieldChars_eq_map, List.append_assoc]
        rfl
      rw [htext]
      simp only [tight, atom, hread]
      rfl

theorem readsBelow_tight (n : Nat) : ReadsBelow (tight n) (n + 1) where
  type := fun _ ht hp _ hrest => tight_chars hp (Nat.le_of_lt_succ ht) hrest
  ofVariable := fun h1 name rest hrest => by
    obtain ⟨m, rfl⟩ : ∃ m, n = m + 1 := ⟨n - 1, by omega⟩
    exact tight_typeVariable m name hrest

/-- Reading a type that stands alone. -/
theorem loose_tight_chars {t : Ty} (hp : t.isProper) {n : Nat} (hn : t.size ≤ n)
    (rest : List Char) (hrest : endsLoose rest) :
    loose n (tight n) (t.chars false ++ rest) = some (t.shown, rest) :=
  loose_chars (readsBelow_tight n) (Nat.le_refl _) (Nat.lt_succ_of_le hn) hp rest hrest

end Ambient.Reading
