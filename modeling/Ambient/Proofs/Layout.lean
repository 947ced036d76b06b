import Ambient.Proofs.Identifier
import Ambient.Proofs.Types
/-!
# The layout of bindings

Bindings are laid out line by line. No line holds a line feed or starts with a space, so the lines
can be told apart in the text whatever the indentation is: cutting the text at its line feeds and
dropping the spaces at the start of each piece gives them back (`contents_flatMap`).
-/

namespace Ambient

/-! ## Characters of lines -/

theorem not_mem_joinedBy {separator : List Char} {texts : List (List Char)} {c : Char}
    (hsep : c ∉ separator) (h : ∀ text ∈ texts, c ∉ text) : c ∉ joinedBy separator texts := by
  induction texts with
  | nil => simp [joinedBy]
  | cons a as ih =>
    cases as with
    | nil => exact h a (by simp)
    | cons b bs =>
      simp only [joinedBy, List.mem_append, not_or]
      exact ⟨⟨h a (by simp), hsep⟩, ih fun text ht => h text (by simp [ht])⟩

namespace Name

theorem newline_not_mem_lowerChars (cs : List Char) : '\n' ∉ lowerChars cs := fun h =>
  absurd (isIdentChar_of_mem_lowerChars h) (by decide)

theorem newline_not_mem_moduleChars (cs : List Char) : '\n' ∉ moduleChars cs := fun h =>
  absurd (isIdentChar_of_mem_moduleChars h) (by decide)

theorem newline_not_mem_typePath (name : String) : '\n' ∉ typePath name := fun h =>
  absurd (isPathChar_of_mem_typePath h) (by decide)

theorem newline_not_mem_typeVariable (name : String) : '\n' ∉ typeVariable name := by
  simp [typeVariable, newline_not_mem_lowerChars]

theorem newline_not_mem_escape (c : Char) : '\n' ∉ escape c := by
  unfold escape
  by_cases h : c = '\n'
  · subst h; decide
  · repeat' split
    all_goals simp [Ne.symm h]

theorem newline_not_mem_quoted (cs : List Char) : '\n' ∉ quoted cs := by
  simp [quoted, newline_not_mem_escape]

end Name

namespace Ty

theorem newline_not_mem_quantifierChars (vs : List String) : '\n' ∉ quantifierChars vs := by
  cases vs with
  | nil => simp [quantifierChars]
  | cons v vs =>
    simp only [quantifierChars, List.mem_append, not_or]
    refine ⟨not_mem_joinedBy (by decide) ?_, by decide⟩
    intro text ht
    obtain ⟨w, -, rfl⟩ := List.mem_map.1 ht
    exact Name.newline_not_mem_typeVariable w

theorem newline_not_mem_parameterChars {ts : List Ty} (h : ∀ t ∈ ts, '\n' ∉ t.chars true) :
    '\n' ∉ parameterChars ts := by
  induction ts with
  | nil => simp [parameterChars]
  | cons t ts ih =>
    simp only [parameterChars, List.mem_append, not_or]
    exact ⟨⟨h t (by simp), by decide⟩, ih fun u hu => h u (by simp [hu])⟩

/-- The text of a type stays on one line. -/
theorem newline_not_mem_chars (t : Ty) (tight : Bool) : '\n' ∉ t.chars tight := by
  induction t using induct generalizing tight with
  | constructor name ts ih =>
    match ts with
    | [] => exact Name.newline_not_mem_typePath name
    | [t] => simp [chars, ih, Name.newline_not_mem_typePath]
    | t :: u :: us =>
      simp only [chars, charsAll_eq_map, List.cons_append, List.mem_cons, List.mem_append, not_or]
      refine ⟨by decide, ⟨not_mem_joinedBy (by decide) ?_, by decide⟩,
        Name.newline_not_mem_typePath name⟩
      intro text ht
      obtain ⟨v, hv, rfl⟩ := List.mem_map.1 ht
      exact ih v hv false
  | ofVariable name => exact Name.newline_not_mem_typeVariable name
  | arrow q ps r ihps ihr =>
    have hps := newline_not_mem_parameterChars fun p hp => ihps p hp true
    cases tight <;> simp [chars, parenthesized, hps, ihr]
  | tuple ts ih =>
    simp only [chars, charsAll_eq_map, List.cons_append, List.mem_cons, List.mem_append, not_or]
    refine ⟨by decide, not_mem_joinedBy (by decide) ?_, by decide⟩
    intro text ht
    obtain ⟨v, hv, rfl⟩ := List.mem_map.1 ht
    exact ih v hv true
  | object fs ih =>
    cases fs with
    | nil => simp only [chars]; decide
    | cons f fs =>
      simp only [chars, fieldChars_eq_map, List.mem_append, not_or]
      refine ⟨⟨by decide, not_mem_joinedBy (by decide) ?_⟩, by decide⟩
      intro text ht
      obtain ⟨g, hg, rfl⟩ := List.mem_map.1 ht
      simp only [Field.chars, List.mem_append, not_or]
      exact ⟨⟨⟨Name.newline_not_mem_lowerChars _, by decide⟩, newline_not_mem_quantifierChars _⟩,
        ih g hg false⟩

end Ty

/-! ## Lines -/

/-- A line that can be told apart from its surroundings: it has no line feed in it and starts with
something other than a space. -/
def Line.IsPlain (l : Line) : Prop := '\n' ∉ l.text ∧ ∀ c ∈ l.text.head?, c ≠ ' '

theorem Extern.newline_not_mem_chars (e : Extern) : '\n' ∉ e.chars := by
  have hattribute : '\n' ∉ e.attribute := by
    unfold Extern.attribute
    split
    · decide
    · split
      · simp [Name.newline_not_mem_quoted]
      · decide
  have htype := e.type.newline_not_mem_chars false
  unfold Extern.chars
  simp only [List.mem_append, List.mem_cons, not_or]
  refine ⟨⟨⟨⟨⟨⟨⟨by decide, Name.newline_not_mem_lowerChars _⟩, by decide⟩, htype⟩, by decide⟩,
    Name.newline_not_mem_quoted _⟩, by decide, hattribute⟩, ?_⟩
  split
  · decide
  · simp

theorem TypeDeclaration.newline_not_mem_chars (d : TypeDeclaration) : '\n' ∉ d.chars := by
  have hparameters : '\n' ∉ TypeDeclaration.parameterChars d.parameters := by
    match d.parameters with
    | [] => simp [TypeDeclaration.parameterChars]
    | [p] => simp [TypeDeclaration.parameterChars, Name.newline_not_mem_typeVariable]
    | p :: q :: ps =>
      simp only [TypeDeclaration.parameterChars, List.cons_append, List.mem_cons, List.mem_append,
        not_or]
      refine ⟨by decide, not_mem_joinedBy (by decide) ?_, by decide⟩
      intro text ht
      obtain ⟨w, -, rfl⟩ := List.mem_map.1 ht
      exact Name.newline_not_mem_typeVariable w
  have hbody := d.body.newline_not_mem_chars false
  unfold TypeDeclaration.chars
  simp only [List.mem_append, not_or]
  refine ⟨⟨⟨⟨?_, hparameters⟩, Name.newline_not_mem_lowerChars _⟩, by decide⟩, hbody⟩
  split <;> decide

theorem Item.isPlain_of_mem_lines (i : Item) (depth : Nat) : ∀ l ∈ i.lines depth, l.IsPlain := by
  induction i using Item.induct generalizing depth with
  | external e =>
    simp only [Item.lines, List.mem_singleton]
    rintro _ rfl
    exact ⟨e.newline_not_mem_chars, by intro c hc; cases hc; decide⟩
  | typeDeclaration d =>
    simp only [Item.lines, List.mem_singleton]
    rintro _ rfl
    refine ⟨d.newline_not_mem_chars, ?_⟩
    unfold TypeDeclaration.chars
    cases d.isNonrec <;> (intro c hc; cases hc; decide)
  | submodule name is ih =>
    intro l hl
    simp only [Item.lines, Item.linesAll_eq_flatMap, List.cons_append, List.mem_cons,
      List.mem_append, List.mem_flatMap, List.not_mem_nil, or_false] at hl
    rcases hl with rfl | ⟨i, hi, hl⟩ | rfl
    · refine ⟨?_, by intro c hc; cases hc; decide⟩
      simp only [List.mem_append, not_or]
      exact ⟨⟨by decide, Name.newline_not_mem_moduleChars _⟩, by decide⟩
    · exact ih i hi (depth + 1) l hl
    · exact ⟨by simp only; decide, by intro c hc; cases hc; decide⟩

theorem Item.isPlain_of_mem_linesAll {is : List Item} {depth : Nat} :
    ∀ l ∈ Item.linesAll depth is, l.IsPlain := by
  intro l hl
  rw [Item.linesAll_eq_flatMap] at hl
  obtain ⟨i, -, hl⟩ := List.mem_flatMap.1 hl
  exact i.isPlain_of_mem_lines depth l hl

namespace Layout

/-- The pieces of a text between line feeds, without the spaces at their start. -/
def contents (cs : List Char) : List (List Char) := (pieces '\n' cs).map (·.dropWhile (· == ' '))

/-- The lines can be read off the text, whatever the indentation. -/
theorem contents_flatMap (indent : Nat) {ls : List Line} (h : ∀ l ∈ ls, l.IsPlain) :
    contents (ls.flatMap (lineChars indent)) = ls.map Line.text ++ [[]] := by
  induction ls with
  | nil => rfl
  | cons l ls ih =>
    obtain ⟨hnewline, hstart⟩ := h l (by simp)
    have hline : '\n' ∉ List.replicate (l.depth * indent) ' ' ++ l.text := by
      simp only [List.mem_append, List.mem_replicate, not_or]
      exact ⟨fun hc => absurd hc.2 (by decide), hnewline⟩
    have hspaces : (List.replicate (l.depth * indent) ' ' ++ l.text).dropWhile (· == ' ')
        = l.text := by
      rw [List.dropWhile_append_of_pos (by simp)]
      cases htext : l.text with
      | nil => rfl
      | cons c cs => simp [hstart c (by simp [htext])]
    have hcut : (l :: ls).flatMap (lineChars indent)
        = (List.replicate (l.depth * indent) ' ' ++ l.text)
          ++ '\n' :: ls.flatMap (lineChars indent) := by
      simp [lineChars]
    have htail := ih fun l' hl' => h l' (by simp [hl'])
    unfold contents at htail ⊢
    rw [hcut, Name.pieces_append hline, List.map_cons, hspaces, htail]
    rfl

/-- Two bindings with the same text have the same lines. -/
theorem text_eq_of_print_eq {layout : Layout} {filename : String} {as bs : List Item}
    (h : layout.print filename as = layout.print filename bs) :
    (Item.linesAll 0 as).map Line.text = (Item.linesAll 0 bs).map Line.text := by
  have hchars := congrArg String.toList h
  simp only [print, String.toList_ofList, printChars, List.append_cancel_left_eq] at hchars
  have hcontents := congrArg contents hchars
  rw [contents_flatMap _ Item.isPlain_of_mem_linesAll,
    contents_flatMap _ Item.isPlain_of_mem_linesAll] at hcontents
  exact List.append_cancel_right hcontents

end Layout

end Ambient
