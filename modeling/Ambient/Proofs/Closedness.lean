import Ambient.Proofs.Hygiene
import Ambient.Proofs.Readability
/-!
# Closed type declarations

A type declaration can be compiled as OCaml only if it is closed: every type variable in its body is
one of its parameters, or stands below a quantifier that lists it. Quantifiers are written for the
fields of object types only, so a function type that declares type parameters loses them anywhere
else: as the body of an alias, below `array`, or as the type of an optional method.

The text of a declaration is read back (`Reading.Shows`) and what it shows is closed if and only if
no type parameter of a function type elsewhere is used (`Ty.writesBinders`).
-/

namespace Ambient

/-! ## What a line shows -/

/-- With enough patience the text is read as the line. -/
def Reading.Shows (cs : List Char) (l : Reading.ShownLine) : Prop :=
  ∃ m, ∀ n, m ≤ n → Reading.line n cs = some l

theorem Reading.Shows.unique {cs : List Char} {l l' : Reading.ShownLine} (h : Reading.Shows cs l)
    (h' : Reading.Shows cs l') : l = l' := by
  obtain ⟨m, hm⟩ := h
  obtain ⟨m', hm'⟩ := h'
  have hline := hm (max m m') (Nat.le_max_left m m')
  rw [hm' (max m m') (Nat.le_max_right m m')] at hline
  exact (Option.some.inj hline).symm

/-- Every type variable in the body is a parameter or stands below a quantifier that lists it. -/
def TypeDeclaration.IsClosed (d : TypeDeclaration) : Prop :=
  ∀ x ∈ d.body.occurrences d.parameters, x.2 ∈ x.1

namespace Item

mutual

/-- The type declarations in an item. -/
def declarations : Item → List TypeDeclaration
  | .external _ => []
  | .typeDeclaration d => [d]
  | .submodule _ items => declarationsIn items

def declarationsIn : List Item → List TypeDeclaration
  | [] => []
  | i :: is => i.declarations ++ declarationsIn is

end

theorem mem_declarationsIn {is : List Item} {d : TypeDeclaration} :
    d ∈ declarationsIn is ↔ ∃ i ∈ is, d ∈ i.declarations := by
  induction is with
  | nil => simp [declarationsIn]
  | cons i is ih => simp [declarationsIn, ih]

theorem occurrences_of_mem_declarations {i : Item} {d : TypeDeclaration} (hd : d ∈ i.declarations)
    {x : List String × String} (hx : x ∈ d.body.occurrences d.parameters) (bs : List String) :
    x ∈ i.occurrences bs := by
  induction i using Item.induct generalizing bs with
  | external e => cases hd
  | typeDeclaration d' =>
    rw [declarations, List.mem_singleton] at hd
    rw [← hd]
    exact hx
  | submodule name is ih =>
    obtain ⟨i, hi, hd⟩ := mem_declarationsIn.1 hd
    rw [occurrences]
    exact mem_occurrencesIn.2 ⟨i, hi, ih i hi hd _⟩

mutual

/-- The lines of an item that show type declarations are those of its type declarations. -/
theorem typeDeclaration_mem_lines (d' : TypeDeclaration) : (i : Item) →
    (.typeDeclaration d' ∈ i.shown.lines ↔ ∃ d ∈ i.declarations, d.shown = d')
  | .external e => by simp [shown, ShownItem.lines, declarations]
  | .typeDeclaration d => by simp [shown, ShownItem.lines, declarations, eq_comm]
  | .submodule name is => by
    have ih := typeDeclaration_mem_linesAll d' is
    simp [shown, ShownItem.lines, declarations, ih]

theorem typeDeclaration_mem_linesAll (d' : TypeDeclaration) : (is : List Item) →
    (.typeDeclaration d' ∈ ShownItem.linesAll (shownAll is) ↔
      ∃ d ∈ declarationsIn is, d.shown = d')
  | [] => by simp [shownAll, ShownItem.linesAll, declarationsIn]
  | i :: is => by
    have hi := typeDeclaration_mem_lines d' i
    have his := typeDeclaration_mem_linesAll d' is
    rw [shownAll, ShownItem.linesAll, declarationsIn, List.mem_append, hi, his]
    simp only [List.mem_append, or_and_right, exists_or]

end

/-- Every line of proper bindings is read as what it shows. -/
theorem forall₂_shows {is : List Item} (hp : allProper is) (depth : Nat) :
    List.Forall₂ (fun l s => Reading.Shows l.text s) (linesAll depth is)
      (ShownItem.linesAll (shownAll is)) := by
  have hread := fun n hn => map_line_linesAll (n := n) is depth hp hn
  rw [List.forall₂_iff_get]
  refine ⟨by simpa using congrArg List.length (hread _ (Nat.le_refl _)), fun k h₁ h₂ => ?_⟩
  -- The line is the same whatever the bound on the reader.
  refine ⟨sizeAll is, fun n hn => ?_⟩
  have hget := congrArg (·[k]?) (hread n hn)
  simpa [h₁, h₂] using hget

/-- The lines of proper bindings show their type declarations and no others. -/
theorem shows_typeDeclaration_iff {is : List Item} (hp : allProper is) {depth : Nat}
    {d' : TypeDeclaration} :
    (∃ l ∈ linesAll depth is, Reading.Shows l.text (.typeDeclaration d')) ↔
      ∃ d ∈ declarationsIn is, d.shown = d' := by
  have hshows := forall₂_shows hp depth
  rw [← typeDeclaration_mem_linesAll]
  constructor
  · rintro ⟨l, hl, hd⟩
    obtain ⟨k, rfl⟩ := List.mem_iff_get.1 hl
    rw [hd.unique (hshows.get k.2 (Nat.lt_of_lt_of_eq k.2 hshows.length_eq))]
    exact List.get_mem _ _
  · intro hd
    obtain ⟨k, hk⟩ := List.mem_iff_get.1 hd
    rw [← hk]
    exact ⟨_, List.get_mem _ _,
      hshows.get (Nat.lt_of_lt_of_eq k.2 hshows.length_eq.symm) k.2⟩

end Item

/-! ## Binders that are written -/

namespace Ty

/-- Whether a type variable that is written like `v` occurs in one of the types. -/
def mentions (v : String) (ts : List Ty) : Bool :=
  (occurrencesIn [] ts).any (lowerIdent ·.2 == lowerIdent v)

mutual

/-- Whether every type parameter that a function type declares and uses is written. That is so for
the type of a field; `isField` tells that the type is one. -/
def writesBinders (isField : Bool) : Ty → Bool
  | .constructor _ arguments => writesBindersIn arguments
  | .variable _ => true
  | .arrow quantified parameters result =>
    (isField || quantified.all fun v => !mentions v (result :: parameters))
      && writesBindersIn parameters && result.writesBinders false
  | .tuple elements => writesBindersIn elements
  | .object fields => writesBindersOf fields

def writesBindersIn : List Ty → Bool
  | [] => true
  | t :: ts => t.writesBinders false && writesBindersIn ts

def writesBindersOf : List Field → Bool
  | [] => true
  | ⟨_, t⟩ :: fs => t.writesBinders true && writesBindersOf fs

end

theorem writesBindersIn_iff {ts : List Ty} :
    writesBindersIn ts ↔ ∀ t ∈ ts, t.writesBinders false := by
  induction ts with
  | nil => simp [writesBindersIn]
  | cons t ts ih => simp [writesBindersIn, ih]

theorem writesBindersOf_iff {fs : List Field} :
    writesBindersOf fs ↔ ∀ f ∈ fs, f.type.writesBinders true := by
  induction fs with
  | nil => simp [writesBindersOf]
  | cons f fs ih =>
    obtain ⟨name, t⟩ := f
    simp [writesBindersOf, ih]

/-- Which type variables occur does not depend on the binders around. -/
theorem exists_occurrence {t : Ty} {bs : List String} {x : List String × String}
    (hx : x ∈ t.occurrences bs) (bs' : List String) : ∃ y ∈ t.occurrences bs', y.2 = x.2 := by
  induction t using Ty.induct generalizing bs bs' with
  | constructor name ts ih =>
    obtain ⟨t, ht, hx⟩ := mem_occurrencesIn.1 hx
    obtain ⟨y, hy, heq⟩ := ih t ht hx bs'
    exact ⟨y, mem_occurrencesIn.2 ⟨t, ht, hy⟩, heq⟩
  | ofVariable name =>
    rw [occurrences, List.mem_singleton] at hx
    exact ⟨(bs', name), List.mem_singleton_self _, by rw [hx]⟩
  | arrow q ps r ihps ihr =>
    rw [occurrences, List.mem_append] at hx
    rcases hx with hx | hx
    · obtain ⟨t, ht, hx⟩ := mem_occurrencesIn.1 hx
      obtain ⟨y, hy, heq⟩ := ihps t ht hx (bs' ++ q)
      refine ⟨y, ?_, heq⟩
      rw [occurrences]
      exact List.mem_append_left _ (mem_occurrencesIn.2 ⟨t, ht, hy⟩)
    · obtain ⟨y, hy, heq⟩ := ihr hx (bs' ++ q)
      refine ⟨y, ?_, heq⟩
      rw [occurrences]
      exact List.mem_append_right _ hy
  | tuple ts ih =>
    obtain ⟨t, ht, hx⟩ := mem_occurrencesIn.1 hx
    obtain ⟨y, hy, heq⟩ := ih t ht hx bs'
    exact ⟨y, mem_occurrencesIn.2 ⟨t, ht, hy⟩, heq⟩
  | object fs ih =>
    obtain ⟨f, hf, hx⟩ := mem_occurrencesOf.1 hx
    obtain ⟨y, hy, heq⟩ := ih f hf hx bs'
    exact ⟨y, mem_occurrencesOf.2 ⟨f, hf, hy⟩, heq⟩

theorem mentions_iff {v : String} {ts : List Ty} (bs : List String) :
    mentions v ts ↔ ∃ t ∈ ts, ∃ x ∈ t.occurrences bs, lowerIdent x.2 = lowerIdent v := by
  simp only [mentions, List.any_eq_true, beq_iff_eq, mem_occurrencesIn]
  constructor
  · rintro ⟨x, ⟨t, ht, hx⟩, heq⟩
    obtain ⟨y, hy, hyx⟩ := exists_occurrence hx bs
    exact ⟨t, ht, y, hy, by rw [hyx, heq]⟩
  · rintro ⟨t, ht, x, hx, heq⟩
    obtain ⟨y, hy, hyx⟩ := exists_occurrence hx []
    exact ⟨y, ⟨t, ht, hy⟩, by rw [hyx, heq]⟩

/-- A type as it is shown, with the type parameters of a function kept in a field. -/
def shownAs (isField : Bool) (t : Ty) : Ty :=
  if isField then t.shown.quantifiedBy (t.quantified.map lowerIdent) else t.shown

@[simp]
theorem shownAs_false (t : Ty) : t.shownAs false = t.shown := rfl

/-- A type variable that one of the binders around is written like is written like one of `ws`. -/
def Covered (bs ws : List String) (x : List String × String) : Prop :=
  lowerIdent x.2 ∈ bs.map lowerIdent → lowerIdent x.2 ∈ ws

theorem mem_occurrences_arrow {bs q : List String} {ps : List Ty} {r : Ty}
    {x : List String × String} :
    x ∈ (Ty.arrow q ps r).occurrences bs ↔ ∃ t ∈ r :: ps, x ∈ t.occurrences (bs ++ q) := by
  rw [occurrences, List.mem_append, mem_occurrencesIn]
  simp [or_comm]

theorem isPrefix_of_mem_occurrences {t : Ty} {bs : List String} {x : List String × String}
    (hx : x ∈ t.occurrences bs) : ∃ inner, x.1 = bs ++ inner := by
  induction t using Ty.induct generalizing bs with
  | constructor name ts ih =>
    obtain ⟨t, ht, hx⟩ := mem_occurrencesIn.1 hx
    exact ih t ht hx
  | ofVariable name =>
    rw [occurrences, List.mem_singleton] at hx
    exact ⟨[], by rw [hx, List.append_nil]⟩
  | arrow q ps r ihps ihr =>
    obtain ⟨t, ht, hxt⟩ := mem_occurrences_arrow.1 hx
    have hinner : ∃ inner, x.1 = bs ++ q ++ inner := by
      rcases List.mem_cons.1 ht with rfl | ht
      · exact ihr hxt
      · exact ihps t ht hxt
    obtain ⟨inner, heq⟩ := hinner
    exact ⟨q ++ inner, by rw [heq, List.append_assoc]⟩
  | tuple ts ih =>
    obtain ⟨t, ht, hx⟩ := mem_occurrencesIn.1 hx
    exact ih t ht hx
  | object fs ih =>
    obtain ⟨f, hf, hx⟩ := mem_occurrencesOf.1 hx
    exact ih f hf hx

section

variable {bs q ws : List String} {t : Ty} {x : List String × String}

/-- Type parameters are written differently from the binders around them. -/
theorem not_mem_of_bound (hx : x ∈ t.occurrences (bs ++ q)) (hbound : Bound x) {w : String}
    (hw : w ∈ bs.map lowerIdent) : w ∉ q.map lowerIdent := by
  obtain ⟨inner, heq⟩ := isPrefix_of_mem_occurrences hx
  have hnodup := hbound.1
  rw [heq, List.map_append, List.map_append] at hnodup
  have hdisjoint := List.disjoint_of_nodup_append (List.nodup_append.1 hnodup).1
  exact fun hq => hdisjoint hw hq

theorem covered_append_iff (hx : x ∈ t.occurrences (bs ++ q)) (hbound : Bound x) :
    Covered (bs ++ q) (ws ++ q.map lowerIdent) x ↔ Covered bs ws x := by
  unfold Covered
  rw [List.map_append, List.mem_append, List.mem_append]
  constructor
  · intro h hb
    rcases h (.inl hb) with h | h
    · exact h
    · exact absurd h (not_mem_of_bound hx hbound hb)
  · rintro h (hb | hq)
    · exact .inl (h hb)
    · exact .inr hq

theorem covered_hidden_iff (hx : x ∈ t.occurrences (bs ++ q)) (hbound : Bound x)
    (hws : ∀ w ∈ ws, w ∈ bs.map lowerIdent) :
    Covered (bs ++ q) ws x ↔ Covered bs ws x ∧ lowerIdent x.2 ∉ q.map lowerIdent := by
  unfold Covered
  rw [List.map_append, List.mem_append]
  constructor
  · intro h
    refine ⟨fun hb => h (.inl hb), fun hq => ?_⟩
    exact not_mem_of_bound hx hbound (hws _ (h (.inr hq))) hq
  · rintro ⟨h, hq⟩ (hb | hq')
    · exact h hb
    · exact absurd hq' hq

end

theorem mem_occurrencesIn_shownAll {ts : List Ty} {ws : List String} {y : List String × String} :
    y ∈ occurrencesIn ws (shownAll ts) ↔ ∃ t ∈ ts, y ∈ t.shown.occurrences ws := by
  rw [mem_occurrencesIn, shownAll_eq_map]
  simp

/-- The parts of a type are closed together if each of them is. -/
theorem closed_parts_iff {ts : List Ty} {bs ws : List String}
    (ih : ∀ t ∈ ts, (∀ y ∈ t.shown.occurrences ws, y.2 ∈ y.1) ↔
      t.writesBinders false ∧ ∀ x ∈ t.occurrences bs, Covered bs ws x) :
    (∀ y ∈ occurrencesIn ws (shownAll ts), y.2 ∈ y.1) ↔
      writesBindersIn ts ∧ ∀ x ∈ occurrencesIn bs ts, Covered bs ws x := by
  rw [writesBindersIn_iff]
  constructor
  · intro h
    have hparts := fun t ht => (ih t ht).1 fun y hy => h y (mem_occurrencesIn_shownAll.2 ⟨t, ht, hy⟩)
    refine ⟨fun t ht => (hparts t ht).1, fun x hx => ?_⟩
    obtain ⟨t, ht, hx⟩ := mem_occurrencesIn.1 hx
    exact (hparts t ht).2 x hx
  · rintro ⟨hwrites, hcovered⟩ y hy
    obtain ⟨t, ht, hy⟩ := mem_occurrencesIn_shownAll.1 hy
    exact (ih t ht).2
      ⟨hwrites t ht, fun x hx => hcovered x (mem_occurrencesIn.2 ⟨t, ht, hx⟩)⟩ y hy

theorem mem_occurrences_arrow_iff {bs q : List String} {ps : List Ty} {r : Ty}
    {x : List String × String} :
    x ∈ (Ty.arrow q ps r).occurrences bs ↔ x ∈ occurrencesIn (bs ++ q) (r :: ps) := by
  rw [mem_occurrences_arrow, mem_occurrencesIn]

section

variable {bs q ws : List String} {ps : List Ty} {r : Ty}

theorem writesBinders_arrow_true (q : List String) (ps : List Ty) (r : Ty) :
    (Ty.arrow q ps r).writesBinders true = writesBindersIn (r :: ps) := by
  simp [writesBinders, writesBindersIn, Bool.and_comm]

theorem writesBinders_arrow_false (bs : List String) :
    (Ty.arrow q ps r).writesBinders false ↔ writesBindersIn (r :: ps) ∧
      ∀ x ∈ occurrencesIn bs (r :: ps), lowerIdent x.2 ∉ q.map lowerIdent := by
  have hunused : (q.all fun v => !mentions v (r :: ps)) ↔
      ∀ x ∈ occurrencesIn bs (r :: ps), lowerIdent x.2 ∉ q.map lowerIdent := by
    simp only [List.all_eq_true, Bool.not_eq_true', Bool.eq_false_iff, ne_eq, mentions_iff bs,
      mem_occurrencesIn, List.mem_map, not_exists, not_and]
    constructor
    · rintro h x ⟨t, ht, hx⟩ v hv heq
      exact h v hv t ht x hx heq.symm
    · intro h v hv t ht x hx heq
      exact h x ⟨t, ht, hx⟩ v hv heq.symm
  rw [← hunused]
  simp only [writesBinders, writesBindersIn, Bool.false_or, Bool.and_eq_true]
  constructor
  · rintro ⟨⟨hq, hps⟩, hr⟩
    exact ⟨⟨hr, hps⟩, hq⟩
  · rintro ⟨⟨hr, hps⟩, hq⟩
    exact ⟨⟨hq, hps⟩, hr⟩

variable (hbound : ∀ x ∈ occurrencesIn (bs ++ q) (r :: ps), ∃ t : Ty,
  x ∈ t.occurrences (bs ++ q) ∧ Bound x)

include hbound

theorem forall_covered_append_iff :
    (∀ x ∈ occurrencesIn (bs ++ q) (r :: ps), Covered (bs ++ q) (ws ++ q.map lowerIdent) x) ↔
      ∀ x ∈ occurrencesIn (bs ++ q) (r :: ps), Covered bs ws x := by
  refine forall₂_congr fun x hx => ?_
  obtain ⟨t, ht, hb⟩ := hbound x hx
  exact covered_append_iff ht hb

theorem forall_covered_hidden_iff (hws : ∀ w ∈ ws, w ∈ bs.map lowerIdent) :
    (∀ x ∈ occurrencesIn (bs ++ q) (r :: ps), Covered (bs ++ q) ws x) ↔
      (∀ x ∈ occurrencesIn (bs ++ q) (r :: ps), lowerIdent x.2 ∉ q.map lowerIdent) ∧
        ∀ x ∈ occurrencesIn (bs ++ q) (r :: ps), Covered bs ws x := by
  rw [← forall₂_and]
  refine forall₂_congr fun x hx => ?_
  obtain ⟨t, ht, hb⟩ := hbound x hx
  rw [covered_hidden_iff ht hb hws, and_comm]

end

/-- What a type shows is closed below the binders `ws`, of all binders `bs` around it, if and only
if its own binders are written and none of the others is used that is not among `ws`. -/
theorem closed_shownAs_iff {t : Ty} {isField : Bool} {bs ws : List String}
    (hws : ∀ w ∈ ws, w ∈ bs.map lowerIdent) (hbound : ∀ x ∈ t.occurrences bs, Bound x) :
    (∀ y ∈ (t.shownAs isField).occurrences ws, y.2 ∈ y.1) ↔
      t.writesBinders isField ∧ ∀ x ∈ t.occurrences bs, Covered bs ws x := by
  induction t using Ty.induct generalizing isField bs ws with
  | constructor name ts ih =>
    have hshown : ((Ty.constructor name ts).shownAs isField).occurrences ws
        = occurrencesIn ws (shownAll ts) := by
      cases isField <;> rfl
    rw [hshown, occurrences, writesBinders]
    refine closed_parts_iff fun t ht => @ih t ht false bs ws hws fun x hx => hbound x ?_
    exact mem_occurrencesIn.2 ⟨t, ht, hx⟩
  | ofVariable name =>
    have hshown : ((Ty.variable name).shownAs isField).occurrences ws = [(ws, lowerIdent name)] := by
      cases isField <;> rfl
    -- One of the binders around is written like the variable.
    have hone := (hbound (bs, name) (List.mem_singleton_self _)).2
    have hmem : lowerIdent name ∈ bs.map lowerIdent :=
      List.count_pos_iff.1 (by rw [hone]; exact Nat.one_pos)
    have hcovered : Covered bs ws (bs, name) ↔ lowerIdent name ∈ ws :=
      ⟨fun h => h hmem, fun h _ => h⟩
    rw [hshown, occurrences, writesBinders]
    simp [hcovered]
  | arrow q ps r ihps ihr =>
    have hbound' : ∀ t ∈ r :: ps, ∀ x ∈ t.occurrences (bs ++ q), Bound x := fun t ht x hx =>
      hbound x (mem_occurrences_arrow.2 ⟨t, ht, hx⟩)
    -- The result and the parameters, below the type parameters and with `ws'` of them written.
    have hparts : ∀ ws', (∀ w ∈ ws', w ∈ (bs ++ q).map lowerIdent) →
        ((∀ y ∈ occurrencesIn ws' (shownAll (r :: ps)), y.2 ∈ y.1) ↔
          writesBindersIn (r :: ps) ∧
            ∀ x ∈ occurrencesIn (bs ++ q) (r :: ps), Covered (bs ++ q) ws' x) := by
      intro ws' hws'
      refine closed_parts_iff fun t ht => ?_
      rcases List.mem_cons.1 ht with rfl | hps
      · exact @ihr false (bs ++ q) ws' hws' (hbound' _ ht)
      · exact @ihps t hps false (bs ++ q) ws' hws' (hbound' _ ht)
    have hin : ∀ x ∈ occurrencesIn (bs ++ q) (r :: ps), ∃ t : Ty,
        x ∈ t.occurrences (bs ++ q) ∧ Bound x := by
      intro x hx
      obtain ⟨t, ht, hx⟩ := mem_occurrencesIn.1 hx
      exact ⟨t, hx, hbound' t ht x hx⟩
    cases isField with
    | true =>
      have hclosed := hparts (ws ++ q.map lowerIdent) (by
        intro w hw
        rw [List.map_append]
        rcases List.mem_append.1 hw with hw | hw
        · exact List.mem_append_left _ (hws w hw)
        · exact List.mem_append_right _ hw)
      change (∀ y ∈ (Ty.arrow (q.map lowerIdent) (shownAll ps) r.shown).occurrences ws, _) ↔ _
      simp only [mem_occurrences_arrow_iff, writesBinders_arrow_true]
      rw [← forall_covered_append_iff hin]
      exact hclosed
    | false =>
      have hclosed := hparts ws (by
        intro w hw
        rw [List.map_append]
        exact List.mem_append_left _ (hws w hw))
      change (∀ y ∈ (Ty.arrow [] (shownAll ps) r.shown).occurrences ws, _) ↔ _
      simp only [mem_occurrences_arrow_iff, List.append_nil]
      rw [writesBinders_arrow_false (bs ++ q), and_assoc, ← forall_covered_hidden_iff hin hws]
      exact hclosed
  | tuple ts ih =>
    have hshown : ((Ty.tuple ts).shownAs isField).occurrences ws = occurrencesIn ws (shownAll ts) := by
      cases isField <;> rfl
    rw [hshown, occurrences, writesBinders]
    refine closed_parts_iff fun t ht => @ih t ht false bs ws hws fun x hx => hbound x ?_
    exact mem_occurrencesIn.2 ⟨t, ht, hx⟩
  | object fs ih =>
    have hshown : ∀ y, y ∈ ((Ty.object fs).shownAs isField).occurrences ws ↔
        ∃ f ∈ fs, y ∈ (f.type.shownAs true).occurrences ws := by
      intro y
      have heq : ((Ty.object fs).shownAs isField).occurrences ws
          = occurrencesOf ws (shownFields fs) := by
        cases isField <;> rfl
      rw [heq, mem_occurrencesOf, shownFields_eq_map]
      simp [Field.shown, shownAs]
    have hfields := fun f hf => @ih f hf true bs ws hws fun x hx =>
      hbound x (mem_occurrencesOf.2 ⟨f, hf, hx⟩)
    rw [writesBinders, writesBindersOf_iff]
    constructor
    · intro h
      have hparts := fun f hf => (hfields f hf).1 fun y hy => h y ((hshown y).2 ⟨f, hf, hy⟩)
      refine ⟨fun f hf => (hparts f hf).1, fun x hx => ?_⟩
      obtain ⟨f, hf, hx⟩ := mem_occurrencesOf.1 hx
      exact (hparts f hf).2 x hx
    · rintro ⟨hwrites, hcovered⟩ y hy
      obtain ⟨f, hf, hy⟩ := (hshown y).1 hy
      exact (hfields f hf).2
        ⟨hwrites f hf, fun x hx => hcovered x (mem_occurrencesOf.2 ⟨f, hf, hx⟩)⟩ y hy

end Ty

/-- What a type declaration shows is closed if and only if its binders are written. -/
theorem TypeDeclaration.isClosed_shown_iff {d : TypeDeclaration}
    (hbound : ∀ x ∈ d.body.occurrences d.parameters, Bound x) :
    d.shown.IsClosed ↔ d.body.writesBinders false := by
  have hclosed := @Ty.closed_shownAs_iff d.body false d.parameters (d.parameters.map lowerIdent)
    (fun _ hw => hw) hbound
  have hcovered : ∀ x ∈ d.body.occurrences d.parameters,
      Ty.Covered d.parameters (d.parameters.map lowerIdent) x := fun _ _ hx => hx
  rw [Ty.shownAs_false] at hclosed
  exact hclosed.trans ⟨And.left, fun h => ⟨h, hcovered⟩⟩

/-! ## Files -/

theorem bound_of_mem_declarationsIn {source : String} {items : List Item}
    (h : bindingsOf source = .ok items) {d : TypeDeclaration} (hd : d ∈ Item.declarationsIn items) :
    ∀ x ∈ d.body.occurrences d.parameters, Bound x := by
  intro x hx
  obtain ⟨item, hitem, hd⟩ := Item.mem_declarationsIn.1 hd
  obtain ⟨file, hfile⟩ := exists_compiles h
  obtain ⟨k, hk⟩ := List.getElem?_of_mem hitem
  obtain ⟨s, hs, hbinds⟩ := hfile.exists_site hk
  have hhygienic := hbinds.hygienic (File.fits_of_mem_sites hs).shows
  exact hhygienic.bound x (Item.occurrences_of_mem_declarations hd hx [])

/-- The lines of the text of a file show the type declarations of its bindings, and what such a line
shows is closed if and only if no type parameter is used of a function type that is not the type of
a field. -/
theorem closed_iff_writesBinders {layout : Layout} {filename source text : String}
    (h : compile layout filename source = .ok text) :
    ∃ items, bindingsOf source = .ok items ∧ text = layout.print filename items ∧
      (∀ d ∈ Item.declarationsIn items,
        ∃ l ∈ Item.linesAll 0 items, Reading.Shows l.text (.typeDeclaration d.shown)) ∧
      ∀ l ∈ Item.linesAll 0 items, ∀ d', Reading.Shows l.text (.typeDeclaration d') →
        ∃ d ∈ Item.declarationsIn items, d.shown = d' ∧
          (d'.IsClosed ↔ d.body.writesBinders false) := by
  unfold compile at h
  split at h
  · rename_i items hitems
    have hproper := allProper_of_bindingsOf hitems
    refine ⟨items, hitems, (Except.ok.inj h).symm, fun d hd => ?_, fun l hl d' hl' => ?_⟩
    · exact (Item.shows_typeDeclaration_iff hproper).2 ⟨d, hd, rfl⟩
    · obtain ⟨d, hd, rfl⟩ := (Item.shows_typeDeclaration_iff hproper).1 ⟨l, hl, hl'⟩
      exact ⟨d, hd, rfl, TypeDeclaration.isClosed_shown_iff (bound_of_mem_declarationsIn hitems hd)⟩
  · cases h

/-- The type parameter of a method is written, so the type of the interface is closed. -/
theorem closed_iff_writesBinders_method : ∃ text items l d,
    compile {} "a.d.ts" "declare interface A<b> \x7b f<a>(x: a): b; \x7d" = .ok text ∧
    bindingsOf "declare interface A<b> \x7b f<a>(x: a): b; \x7d" = .ok items ∧
    l ∈ Item.linesAll 0 items ∧ Reading.Shows l.text (.typeDeclaration d) ∧ d.IsClosed := by
  have hok : bindingsOf "declare interface A<b> \x7b f<a>(x: a): b; \x7d"
      = .ok [.submodule "A" (interfaceItems ["b"]
        [⟨"f", .arrow ["a"] [.variable "a"] (.variable "b")⟩])] := by
    decide +kernel
  have hcompile := compile_of_bindingsOf hok {} "a.d.ts"
  obtain ⟨items, hitems, -, hlines, hclosed⟩ := closed_iff_writesBinders hcompile
  rw [hok] at hitems
  cases hitems
  obtain ⟨l, hl, hshows⟩ := hlines _ (List.mem_singleton_self _)
  obtain ⟨d, hd, -, hiff⟩ := hclosed l hl _ hshows
  rw [List.mem_singleton.1 hd] at hiff
  exact ⟨_, _, l, _, hcompile, hok, hl, hshows, hiff.2 (by decide)⟩

/-- The type parameter of an optional method is not written, so the type of the interface is not
closed. -/
theorem not_closed_optional_method : ∃ items l d,
    compile {} "a.d.ts" "declare interface A \x7b f?<a>(x: a): a; \x7d"
      = .ok (({} : Layout).print "a.d.ts" items) ∧
    l ∈ Item.linesAll 0 items ∧
    l.text = "type t = < f : ('a -> 'a) Js.undefined > Js.t".toList ∧
    Reading.Shows l.text (.typeDeclaration d) ∧ ¬ d.IsClosed := by
  have hok : bindingsOf "declare interface A \x7b f?<a>(x: a): a; \x7d"
      = .ok [.submodule "A" (interfaceItems []
        [⟨"f", .orUndefined (.arrow ["a"] [.variable "a"] (.variable "a"))⟩])] := by
    decide +kernel
  have hshows : Reading.Shows "type t = < f : ('a -> 'a) Js.undefined > Js.t".toList
      (.typeDeclaration (TypeDeclaration.shown ⟨false, "t", [], .object
        [⟨"f", .orUndefined (.arrow ["a"] [.variable "a"] (.variable "a"))⟩]⟩)) :=
    ⟨_, fun n hn => Reading.line_typeDeclaration ⟨false, "t", [], .object
      [⟨"f", .orUndefined (.arrow ["a"] [.variable "a"] (.variable "a"))⟩]⟩ rfl hn⟩
  refine ⟨_, ⟨1, "type t = < f : ('a -> 'a) Js.undefined > Js.t".toList⟩, _,
    compile_of_bindingsOf hok _ _, by decide +kernel, rfl, hshows, fun hclosed => ?_⟩
  have hmem : ([], lowerIdent "a") ∈ (Ty.shown (.object
      [⟨"f", .orUndefined (.arrow ["a"] [.variable "a"] (.variable "a"))⟩])).occurrences [] :=
    List.mem_cons_self
  exact absurd (hclosed _ hmem) (by simp)

end Ambient
