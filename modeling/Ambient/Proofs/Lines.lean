import Ambient.Proofs.Layout
import Ambient.Proofs.Reading
/-!
# Reading the lines of bindings

Each line of bindings is an external, a type declaration, or the start or the end of a module.
`line` reads what a line shows, and the lines that a module starts and ends with give back how the
items are nested. So bindings laid out alike show the same (`shownAll_eq_of_print_eq`).
-/

namespace Ambient.Reading

open Name (isIdentChar typeVariable lowerChars moduleChars escape quoted)

theorem eq_append_of_behind {start cs rest : List Char} (h : behind start cs = some rest) :
    cs = start ++ rest := by
  induction start generalizing cs with
  | nil => simpa [behind] using h
  | cons d start ih =>
    cases cs with
    | nil => cases h
    | cons c cs =>
      unfold behind at h
      split at h
      · rename_i hc
        rw [hc, ih h, List.cons_append]
      · cases h

/-! ## String literals -/

/-- The character that is written as `c` behind a backslash. -/
def unescape (c : Char) : Char :=
  if c = 'n' then '\n' else if c = 'r' then '\r' else if c = 't' then '\t' else c

/-- A string literal without its opening quote. -/
def literalBody : Reader (List Char)
  | [] => none
  | '"' :: cs => some ([], cs)
  | '\\' :: c :: cs => do
    let (ds, cs) ← literalBody cs
    return (unescape c :: ds, cs)
  | c :: cs => do
    let (ds, cs) ← literalBody cs
    return (c :: ds, cs)

def literal : Reader String
  | '"' :: cs => do
    let (ds, cs) ← literalBody cs
    return (String.ofList ds, cs)
  | _ => none

theorem literalBody_escape (c : Char) {cs ds rest : List Char}
    (h : literalBody cs = some (ds, rest)) :
    literalBody (escape c ++ cs) = some (c :: ds, rest) := by
  unfold escape
  repeat' split
  all_goals simp only [beq_iff_eq] at *
  · subst_vars; simp [literalBody, h, unescape]
  · subst_vars; simp [literalBody, h, unescape]
  · subst_vars; simp [literalBody, h, unescape]
  · subst_vars; simp [literalBody, h, unescape]
  · subst_vars; simp [literalBody, h, unescape]
  · rename_i hquote hslash _ _ _
    rw [List.singleton_append, literalBody]
    · simp [h]
    · exact hquote
    · exact fun _ _ heq => absurd heq hslash

theorem literal_quoted (name : String) (rest : List Char) :
    literal (quoted name.toList ++ rest) = some (name, rest) := by
  have hbody : ∀ cs : List Char, literalBody (cs.flatMap escape ++ '"' :: rest)
      = some (cs, rest) := by
    intro cs
    induction cs with
    | nil => rfl
    | cons c cs ih => simp only [List.flatMap_cons, List.append_assoc, literalBody_escape c ih]
  have htext : quoted name.toList ++ rest
      = '"' :: (name.toList.flatMap escape ++ '"' :: rest) := by
    simp [quoted]
  simp [htext, literal, hbody]

/-! ## Externals -/

/-- What ties an external to JavaScript. -/
def readAttribute : Reader Attribute := fun cs => do
  let cs ← behind "[@@bs.".toList cs
  match cs with
  | 'g' :: 'e' :: 't' :: ']' :: cs => return (.get, cs)
  | 'v' :: 'a' :: 'l' :: ']' :: cs => return (.val, cs)
  | cs =>
    let cs ← behind "module ".toList cs
    let (m, cs) ← literal cs
    let cs ← behind [']'] cs
    return (.exportOf m, cs)

/-- What stands behind the keyword of an external. -/
def readExternal (n : Nat) (cs : List Char) : Option ShownExtern := do
  let (name, cs) ← readIdent cs
  let cs ← behind " : ".toList cs
  let (type, cs) ← loose n (tight n) cs
  let cs ← behind " = ".toList cs
  let (sourceName, cs) ← literal cs
  let cs ← behind [' '] cs
  let (tie, cs) ← readAttribute cs
  return ⟨name, sourceName, type, tie, !cs.isEmpty⟩

theorem readAttribute_chars (a : Attribute) (rest : List Char) :
    readAttribute (a.chars ++ rest) = some (a, rest) := by
  unfold readAttribute Attribute.chars
  simp only [List.append_assoc, behind_append, Option.bind_eq_bind, Option.bind_some]
  cases a with
  | get => rfl
  | val => rfl
  | exportOf m =>
    have hread := literal_quoted m (']' :: rest)
    change ((literal (quoted m.toList ++ ']' :: rest)).bind fun (m, cs) =>
      (behind [']'] cs).bind fun cs => some (Attribute.exportOf m, cs)) = _
    rw [hread]
    rfl

theorem readExternal_chars (e : Extern) (hp : e.type.isProper) {n : Nat} (hn : e.type.size ≤ n) :
    ∃ cs, e.chars = "external ".toList ++ cs ∧ readExternal n cs = some e.shown := by
  have htext : e.chars = "external ".toList ++ (lowerChars e.name.toList ++ (" : ".toList
      ++ (e.type.chars false ++ (" = ".toList ++ (quoted e.sourceName.toList ++ ' ' :: (e.tie.chars
        ++ if e.isVariadic then " [@@bs.variadic]".toList else [])))))) := by
    unfold Extern.chars
    simp only [← e.attribute_eq, List.append_assoc, List.cons_append]
  refine ⟨_, htext, ?_⟩
  have hname : ∀ cs, readIdent (lowerChars e.name.toList ++ (" : ".toList ++ cs))
      = some (lowerIdent e.name, " : ".toList ++ cs) := fun cs =>
    readIdent_lowerChars e.name (by simp; decide)
  have htype : ∀ cs, loose n (tight n) (e.type.chars false ++ (" = ".toList ++ cs))
      = some (e.type.shown, " = ".toList ++ cs) := fun cs => loose_tight_chars hp hn _ rfl
  unfold readExternal
  rw [hname]
  simp only [Option.bind_eq_bind, Option.bind_some, behind_append, htype]
  simp only [Option.bind_some, literal_quoted, behind, if_true, readAttribute_chars]
  simp only [Extern.shown]
  cases e.isVariadic <;> rfl

/-! ## Type declarations -/

/-- The parameters of a type declaration. -/
def readParameters (n : Nat) : Reader (List String)
  | '(' :: cs => do
    let (ps, cs) ← sepBy ", ".toList readVariable n cs
    let cs ← behind ") ".toList cs
    return (ps, cs)
  | '\x27' :: cs => do
    let (p, cs) ← readIdent cs
    let cs ← behind [' '] cs
    return ([p], cs)
  | cs => some ([], cs)

/-- What stands behind the keywords of a type declaration. -/
def readDefinition (n : Nat) (isNonrec : Bool) (cs : List Char) : Option TypeDeclaration := do
  let (parameters, cs) ← readParameters n cs
  let (name, cs) ← readIdent cs
  let cs ← behind " = ".toList cs
  let (body, _) ← loose n (tight n) cs
  return ⟨isNonrec, name, parameters, body⟩

/-- What stands behind the first keyword of a type declaration. -/
def readDeclaration (n : Nat) (cs : List Char) : Option TypeDeclaration :=
  match behind "nonrec ".toList cs with
  | some cs => readDefinition n true cs
  | none => readDefinition n false cs

theorem readParameters_chars (ps : List String) {n : Nat} (hn : ps.length ≤ n) (name : String)
    (rest : List Char) :
    readParameters n (TypeDeclaration.parameterChars ps ++ (lowerChars name.toList ++ rest))
      = some (ps.map lowerIdent, lowerChars name.toList ++ rest) := by
  match ps with
  | [] =>
    obtain ⟨c, cs, hc, hlow⟩ := Name.lowerChars_eq_cons name.toList
    simp only [TypeDeclaration.parameterChars, List.nil_append, hc, List.cons_append]
    unfold readParameters
    split
    · rename_i heq; cases heq; exact absurd hlow (by decide)
    · rename_i heq; cases heq; exact absurd hlow (by decide)
    · rfl
  | [p] =>
    have hread : readIdent (lowerChars p.toList ++ ' ' :: (lowerChars name.toList ++ rest))
        = some (lowerIdent p, ' ' :: (lowerChars name.toList ++ rest)) :=
      readIdent_lowerChars p (by simp; decide)
    simp only [TypeDeclaration.parameterChars, typeVariable, List.cons_append, List.append_assoc,
      List.nil_append, readParameters, hread]
    rfl
  | p :: q :: ps =>
    have hread : sepBy ", ".toList readVariable n (joinedBy ", ".toList
        ((p :: q :: ps).map typeVariable) ++ (") ".toList ++ (lowerChars name.toList ++ rest)))
        = some ((p :: q :: ps).map lowerIdent, ") ".toList ++ (lowerChars name.toList ++ rest)) :=
      sepBy_joinedBy (fun cs => ∀ c ∈ cs.head?, ¬ isIdentChar c)
        (fun v _ _ hcs => readVariable_typeVariable v hcs) (fun cs => by simp; decide) (by simp)
        hn (by simp; decide) rfl
    simp only [TypeDeclaration.parameterChars, List.cons_append, List.append_assoc,
      readParameters, hread, Option.bind_eq_bind, Option.bind_some, behind_append]
    rfl

theorem readDefinition_chars (d : TypeDeclaration) (hp : d.body.isProper) {n : Nat}
    (hn : d.parameters.length + d.body.size ≤ n) :
    readDefinition n d.isNonrec (TypeDeclaration.parameterChars d.parameters
        ++ (lowerChars d.name.toList ++ (" = ".toList ++ d.body.chars false)))
      = some d.shown := by
  have hbody := loose_tight_chars hp (by omega : d.body.size ≤ n) [] rfl
  rw [List.append_nil] at hbody
  unfold readDefinition
  rw [readParameters_chars d.parameters (by omega)]
  simp only [Option.bind_eq_bind, Option.bind_some]
  rw [readIdent_lowerChars d.name (by simp; decide)]
  simp only [Option.bind_some, behind_append, hbody]
  rfl

/-- No declared name is taken for the keyword that may stand before it. -/
theorem behind_nonrec (ps : List String) (name : String) (rest : List Char) :
    behind "nonrec ".toList (TypeDeclaration.parameterChars ps
      ++ (lowerChars name.toList ++ (' ' :: rest))) = none := by
  match ps with
  | [p] => rfl
  | p :: q :: ps => rfl
  | [] =>
    rw [Option.eq_none_iff_forall_ne_some]
    intro cs hcs
    have heq := eq_append_of_behind hcs
    have hident := congrArg (fun ds => ds.takeWhile isIdentChar) heq
    have hstop : ∀ ds : List Char, ∀ c ∈ (' ' :: ds).head?, ¬ isIdentChar c := by simp; decide
    have hkeyword : ("nonrec".toList ++ ' ' :: cs).takeWhile isIdentChar = "nonrec".toList :=
      takeWhile_append_stop (List.all_eq_true.1 (by decide)) (hstop cs)
    change _ = ("nonrec".toList ++ ' ' :: cs).takeWhile isIdentChar at hident
    simp only [TypeDeclaration.parameterChars, List.nil_append, hkeyword] at hident
    rw [takeWhile_append_stop (fun c hc => Name.isIdentChar_of_mem_lowerChars hc) (hstop rest)]
      at hident
    have hreserved := (Name.isLowerIdent_lowerChars name.toList).2
    rw [hident] at hreserved
    exact absurd hreserved (by decide)

theorem readDeclaration_chars (d : TypeDeclaration) (hp : d.body.isProper) {n : Nat}
    (hn : d.parameters.length + d.body.size ≤ n) :
    ∃ cs, d.chars = "type ".toList ++ cs ∧ readDeclaration n cs = some d.shown := by
  have hread := readDefinition_chars d hp hn
  cases hrec : d.isNonrec with
  | true =>
    refine ⟨"nonrec ".toList ++ (TypeDeclaration.parameterChars d.parameters
      ++ (lowerChars d.name.toList ++ (" = ".toList ++ d.body.chars false))), ?_, ?_⟩
    · simp only [TypeDeclaration.chars, hrec, if_true, List.append_assoc]
      rfl
    · rw [hrec] at hread
      simp only [readDeclaration, behind_append, hread]
  | false =>
    refine ⟨TypeDeclaration.parameterChars d.parameters
      ++ (lowerChars d.name.toList ++ (" = ".toList ++ d.body.chars false)), ?_, ?_⟩
    · simp only [TypeDeclaration.chars, hrec, List.append_assoc]
      rfl
    · rw [hrec] at hread
      have hname := behind_nonrec d.parameters d.name ("= ".toList ++ d.body.chars false)
      change behind _ (_ ++ (_ ++ (" = ".toList ++ d.body.chars false))) = none at hname
      simp only [readDeclaration, hname, hread]

/-! ## Lines -/

/-- What one line shows. -/
inductive ShownLine where
  | external (e : ShownExtern)
  | typeDeclaration (d : TypeDeclaration)
  | opening (moduleName : String)
  | closing

/-- Reads one line. -/
def line (n : Nat) (cs : List Char) : Option ShownLine :=
  match behind "external ".toList cs with
  | some cs => (readExternal n cs).map .external
  | none =>
    match behind "type ".toList cs with
    | some cs => (readDeclaration n cs).map .typeDeclaration
    | none =>
      match behind "module ".toList cs with
      | some cs => (readIdent cs).map fun (name, _) => .opening name
      | none => some .closing

theorem line_external (e : Extern) (hp : e.type.isProper) {n : Nat} (hn : e.type.size ≤ n) :
    line n e.chars = some (.external e.shown) := by
  obtain ⟨cs, htext, hread⟩ := readExternal_chars e hp hn
  simp only [line, htext, behind_append, hread, Option.map_some]

theorem line_typeDeclaration (d : TypeDeclaration) (hp : d.body.isProper) {n : Nat}
    (hn : d.parameters.length + d.body.size ≤ n) :
    line n d.chars = some (.typeDeclaration d.shown) := by
  obtain ⟨cs, htext, hread⟩ := readDeclaration_chars d hp hn
  have hexternal : behind "external ".toList ("type ".toList ++ cs) = none := by simp [behind]
  simp only [line, htext, hexternal, behind_append, hread, Option.map_some]

theorem line_opening (n : Nat) (name : String) :
    line n ("module ".toList ++ moduleChars name.toList ++ " = struct".toList)
      = some (.opening (moduleIdent name)) := by
  have hread : readIdent (moduleChars name.toList ++ " = struct".toList)
      = some (moduleIdent name, " = struct".toList) :=
    readIdent_of_all (fun _ hc => Name.isIdentChar_of_mem_moduleChars hc) (by simp; decide)
  have hexternal : ∀ cs, behind "external ".toList ("module ".toList ++ cs) = none := by
    simp [behind]
  have htype : ∀ cs, behind "type ".toList ("module ".toList ++ cs) = none := by simp [behind]
  simp only [line, List.append_assoc, hexternal, htype, behind_append, hread, Option.map_some]

theorem line_closing (n : Nat) : line n "end".toList = some .closing := by
  simp [line, behind]

end Ambient.Reading

namespace Ambient

open Reading (ShownLine line)

mutual

/-- A bound on the sizes of the types in an item and on the numbers of type parameters. -/
def Item.size : Item → Nat
  | .external e => e.type.size
  | .typeDeclaration d => d.parameters.length + d.body.size
  | .submodule _ items => Item.sizeAll items

def Item.sizeAll : List Item → Nat
  | [] => 0
  | i :: is => i.size + Item.sizeAll is

end

mutual

/-- What the lines of an item show, one after another. -/
def ShownItem.lines : ShownItem → List ShownLine
  | .external e => [.external e]
  | .typeDeclaration d => [.typeDeclaration d]
  | .submodule name items => .opening name :: ShownItem.linesAll items ++ [.closing]

def ShownItem.linesAll : List ShownItem → List ShownLine
  | [] => []
  | i :: is => i.lines ++ ShownItem.linesAll is

end

mutual

/-- Every line of an item is read as what it shows. -/
theorem Item.map_line_lines {n : Nat} : (i : Item) → (depth : Nat) → i.isProper → i.size ≤ n →
    (i.lines depth).map (fun l => line n l.text) = i.shown.lines.map some
  | .external e, depth, hp, hn => by
    simp only [Item.isProper, Item.size] at hp hn
    simp only [Item.lines, Item.shown, ShownItem.lines, List.map_cons, List.map_nil,
      Reading.line_external e hp hn]
  | .typeDeclaration d, depth, hp, hn => by
    simp only [Item.isProper, Item.size] at hp hn
    simp only [Item.lines, Item.shown, ShownItem.lines, List.map_cons, List.map_nil,
      Reading.line_typeDeclaration d hp hn]
  | .submodule name items, depth, hp, hn => by
    simp only [Item.isProper, Item.size] at hp hn
    simp only [Item.lines, Item.shown, ShownItem.lines, List.cons_append, List.map_cons,
      List.map_append, List.map_nil, Reading.line_opening, Reading.line_closing,
      Item.map_line_linesAll items (depth + 1) hp hn]

theorem Item.map_line_linesAll {n : Nat} : (is : List Item) → (depth : Nat) →
    Item.allProper is → Item.sizeAll is ≤ n →
    (Item.linesAll depth is).map (fun l => line n l.text)
      = (ShownItem.linesAll (Item.shownAll is)).map some
  | [], _, _, _ => rfl
  | i :: is, depth, hp, hn => by
    simp only [Item.allProper, Bool.and_eq_true, Item.sizeAll] at hp hn
    have hi : i.size ≤ n := by omega
    have his : Item.sizeAll is ≤ n := by omega
    simp only [Item.linesAll, Item.shownAll, ShownItem.linesAll, List.map_append,
      Item.map_line_lines i depth hp.1 hi, Item.map_line_linesAll is depth hp.2 his]

end

/-! ## Nesting -/

/-- Takes in one more line, from the last line to the first. The stack holds the items behind the
line, those of the innermost open module first. -/
def ShownLine.place : ShownLine → List (List ShownItem) → List (List ShownItem)
  | .external e, is :: stack => (.external e :: is) :: stack
  | .typeDeclaration d, is :: stack => (.typeDeclaration d :: is) :: stack
  | .closing, stack => [] :: stack
  | .opening name, body :: is :: stack => (.submodule name body :: is) :: stack
  | _, stack => stack

mutual

theorem ShownItem.foldr_place_lines : (i : ShownItem) → (is : List ShownItem) →
    (stack : List (List ShownItem)) →
    i.lines.foldr ShownLine.place (is :: stack) = (i :: is) :: stack
  | .external _, _, _ => rfl
  | .typeDeclaration _, _, _ => rfl
  | .submodule name items, is, stack => by
    have hbody := ShownItem.foldr_place_linesAll items [] (is :: stack)
    simp only [ShownItem.lines, List.cons_append, List.foldr_cons, List.foldr_append,
      List.foldr_nil, ShownLine.place, hbody, List.append_nil]

/-- The lines of items give back the items. -/
theorem ShownItem.foldr_place_linesAll : (items is : List ShownItem) →
    (stack : List (List ShownItem)) →
    (ShownItem.linesAll items).foldr ShownLine.place (is :: stack) = (items ++ is) :: stack
  | [], _, _ => rfl
  | i :: items, is, stack => by
    rw [ShownItem.linesAll, List.foldr_append, ShownItem.foldr_place_linesAll items is stack,
      ShownItem.foldr_place_lines i (items ++ is) stack, List.cons_append]

end

theorem ShownItem.linesAll_injective {as bs : List ShownItem}
    (h : ShownItem.linesAll as = ShownItem.linesAll bs) : as = bs := by
  have hfold := congrArg (fun ls => ls.foldr ShownLine.place [[]]) h
  simpa [ShownItem.foldr_place_linesAll] using hfold

/-- Bindings with the same text show the same. -/
theorem Layout.shownAll_eq_of_print_eq {layout : Layout} {filename : String} {as bs : List Item}
    (ha : Item.allProper as) (hb : Item.allProper bs)
    (h : layout.print filename as = layout.print filename bs) :
    Item.shownAll as = Item.shownAll bs := by
  have hlines := congrArg (List.map (line (Item.sizeAll as + Item.sizeAll bs)))
    (text_eq_of_print_eq h)
  simp only [List.map_map] at hlines
  have hread : (ShownItem.linesAll (Item.shownAll as)).map some
      = (ShownItem.linesAll (Item.shownAll bs)).map some := by
    rw [← Item.map_line_linesAll as 0 ha (Nat.le_add_right _ _),
      ← Item.map_line_linesAll bs 0 hb (Nat.le_add_left _ _)]
    exact hlines
  refine ShownItem.linesAll_injective (List.map_injective_iff.2 ?_ hread)
  exact fun _ _ heq => Option.some.inj heq

end Ambient
