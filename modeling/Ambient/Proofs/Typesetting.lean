import Ambient.Proofs.Layout
/-!
# Bindings as a page of text

The layout decides how far lines are indented and whether a header comes first, and nothing else:
for all layouts and file names bindings are made of the same lines (`Layout.print_eq_lines`).

The header is meant to be one comment. Comments nest, and a file name is cleared of `*)` but not of
`(*`. So no file name ends the comment early, but one with `(*` in it leaves the comment open, and
then the bindings are part of it (`Layout.header_closed_iff`).
-/

namespace Ambient

/-! ## Lines -/

/-- The lines have the shape of the items: one line for an external or a type declaration and two
for a module, with the lines of its items between them, one level deeper. -/
inductive Item.Lined : Nat → List Item → List Line → Prop
  | nil {depth : Nat} : Lined depth [] []
  | external {depth : Nat} {e : Extern} {items : List Item} {text : List Char}
    {lines : List Line} : Lined depth items lines →
    Lined depth (.external e :: items) (⟨depth, text⟩ :: lines)
  | typeDeclaration {depth : Nat} {d : TypeDeclaration} {items : List Item} {text : List Char}
    {lines : List Line} : Lined depth items lines →
    Lined depth (.typeDeclaration d :: items) (⟨depth, text⟩ :: lines)
  | submodule {depth : Nat} {name : String} {body items : List Item} {opening closing : List Char}
    {inner lines : List Line} : Lined (depth + 1) body inner → Lined depth items lines →
    Lined depth (.submodule name body :: items)
      (⟨depth, opening⟩ :: inner ++ ⟨depth, closing⟩ :: lines)

theorem Item.Lined.cons (i : Item) {depth : Nat} {items : List Item} {lines : List Line}
    (h : Lined depth items lines) : Lined depth (i :: items) (i.lines depth ++ lines) := by
  induction i using Item.induct generalizing depth items lines with
  | external e => exact .external h
  | typeDeclaration d => exact .typeDeclaration h
  | submodule name body ih =>
    have hbody : Lined (depth + 1) body (linesAll (depth + 1) body) := by
      induction body with
      | nil => exact .nil
      | cons i body ihbody =>
        exact ih i List.mem_cons_self (ihbody fun j hj => ih j (List.mem_cons_of_mem i hj))
    rw [Item.lines, List.append_assoc]
    exact .submodule hbody h

theorem Item.lined_linesAll (depth : Nat) (items : List Item) :
    Lined depth items (linesAll depth items) := by
  induction items with
  | nil => exact .nil
  | cons i items ih => exact .cons i ih

namespace Layout

theorem replicate_append_inj {m n : Nat} {cs ds : List Char} (hcs : ∀ c ∈ cs.head?, c ≠ ' ')
    (hds : ∀ c ∈ ds.head?, c ≠ ' ')
    (h : List.replicate m ' ' ++ cs = List.replicate n ' ' ++ ds) : m = n ∧ cs = ds := by
  induction m generalizing n with
  | zero =>
    cases n with
    | zero => exact ⟨rfl, h⟩
    | succ n =>
      have hcs' : cs = ' ' :: (List.replicate n ' ' ++ ds) := h
      exact absurd rfl (hcs ' ' (by rw [hcs']; rfl))
  | succ m ih =>
    cases n with
    | zero =>
      have hds' : ds = ' ' :: (List.replicate m ' ' ++ cs) := h.symm
      exact absurd rfl (hds ' ' (by rw [hds']; rfl))
    | succ n =>
      obtain ⟨rfl, heq⟩ := ih (List.cons.inj h).2
      exact ⟨rfl, heq⟩

/-- With any indentation but none, plain lines can be told from their text. -/
theorem lines_eq_of_flatMap_eq {as bs : List Line} (ha : ∀ l ∈ as, l.IsPlain)
    (hb : ∀ l ∈ bs, l.IsPlain) (h : as.flatMap (lineChars 1) = bs.flatMap (lineChars 1)) :
    as = bs := by
  induction as generalizing bs with
  | nil =>
    cases bs with
    | nil => rfl
    | cons b bs => simp [lineChars] at h
  | cons a as ih =>
    cases bs with
    | nil => simp [lineChars] at h
    | cons b bs =>
      obtain ⟨hanewline, hastart⟩ := ha a List.mem_cons_self
      obtain ⟨hbnewline, hbstart⟩ := hb b List.mem_cons_self
      have hline : ∀ {l : Line}, '\n' ∉ l.text → '\n' ∉ List.replicate l.depth ' ' ++ l.text := by
        intro l hl
        simp only [List.mem_append, List.mem_replicate, not_or]
        exact ⟨fun hc => absurd hc.2 (by decide), hl⟩
      -- The first line feed ends the first line on both sides.
      have hpieces := congrArg (pieces '\n') h
      simp only [List.flatMap_cons, lineChars, Nat.mul_one, List.append_assoc,
        List.singleton_append] at h hpieces
      rw [← List.append_assoc, ← List.append_assoc, Name.pieces_append (hline hanewline),
        Name.pieces_append (hline hbnewline)] at hpieces
      have hfirst := (List.cons.inj hpieces).1
      obtain ⟨hdepth, htext⟩ := replicate_append_inj hastart hbstart hfirst
      have hab : a = b := by
        cases a
        cases b
        cases hdepth
        cases htext
        rfl
      subst hab
      have hrest := List.append_cancel_left (List.append_cancel_left h)
      rw [ih (fun l hl => ha l (List.mem_cons_of_mem a hl))
        (fun l hl => hb l (List.mem_cons_of_mem a hl)) (List.cons.inj hrest).2]

/-- Bindings are made of the same lines in every layout. There is exactly one list of lines, none
with a line feed in it or a space at its start, which have the shape of the items and of which the
text consists: each indented by its depth and ended by a line feed, behind the header if there is
one. -/
theorem print_eq_lines (items : List Item) :
    ∃! lines : List Line, (∀ l ∈ lines, '\n' ∉ l.text ∧ ∀ c ∈ l.text.head?, c ≠ ' ') ∧
      Item.Lined 0 items lines ∧
      ∀ (indent : Nat) (filename : String),
        (print ⟨indent, false⟩ filename items).toList = (lines.flatMap fun l =>
          List.replicate (indent * l.depth) ' ' ++ l.text ++ ['\n']) ∧
        (print ⟨indent, true⟩ filename items).toList = headerChars filename ++
          (print ⟨indent, false⟩ filename items).toList := by
  have hchars : ∀ indent, lineChars indent = fun l : Line =>
      List.replicate (indent * l.depth) ' ' ++ l.text ++ ['\n'] := by
    intro indent
    funext l
    rw [lineChars, Nat.mul_comm]
  refine ⟨Item.linesAll 0 items, ⟨Item.isPlain_of_mem_linesAll, Item.lined_linesAll 0 items, ?_⟩, ?_⟩
  · intro indent filename
    simp only [print, printChars, String.toList_ofList, ← hchars, Bool.false_eq_true, if_false,
      if_true, List.nil_append, and_self]
  · rintro lines ⟨hplain, -, htext⟩
    obtain ⟨hprint, -⟩ := htext 1 ""
    simp only [print, printChars, String.toList_ofList, ← hchars, Bool.false_eq_true, if_false,
      List.nil_append] at hprint
    exact lines_eq_of_flatMap_eq hplain Item.isPlain_of_mem_linesAll hprint.symm

/-! ## Comments -/

/-- What stands behind a comment that is open, with so many comments open inside it. Comments nest:
each `(*` opens one and each `*)` closes the innermost. -/
def behindComment : Nat → List Char → Option (List Char)
  | depth, '(' :: '*' :: cs => behindComment (depth + 1) cs
  | 0, '*' :: ')' :: cs => some cs
  | depth + 1, '*' :: ')' :: cs => behindComment depth cs
  | depth, _ :: cs => behindComment depth cs
  | _, [] => none

/-- What stands behind the comment that a text starts with. -/
def afterComment : List Char → Option (List Char)
  | '(' :: '*' :: cs => behindComment 0 cs
  | _ => none

/-- How many comments a text opens. -/
def openings : List Char → Nat
  | '(' :: '*' :: cs => openings cs + 1
  | _ :: cs => openings cs
  | [] => 0

/-- A character that neither opens nor closes a comment with the one behind it. -/
theorem behindComment_cons {c : Char} {cs : List Char} (hopen : c = '(' → cs.head? ≠ some '*')
    (hclose : c = '*' → cs.head? ≠ some ')') (depth : Nat) :
    behindComment depth (c :: cs) = behindComment depth cs := by
  rw [behindComment]
  · rintro ds rfl rfl
    exact hopen rfl rfl
  · rintro ds - rfl rfl
    exact hclose rfl rfl
  · rintro d ds - rfl rfl
    exact hclose rfl rfl

theorem openings_cons {c : Char} {cs : List Char} (hopen : c = '(' → cs.head? ≠ some '*') :
    openings (c :: cs) = openings cs := by
  rw [openings]
  rintro ds rfl rfl
  exact hopen rfl rfl

theorem withoutCommentEnd_cons {c : Char} {cs : List Char}
    (hclose : c = '*' → cs.head? ≠ some ')') :
    withoutCommentEnd (c :: cs) = c :: withoutCommentEnd cs := by
  rw [withoutCommentEnd]
  rintro ds rfl rfl
  exact hclose rfl rfl

theorem head?_withoutCommentEnd (cs : List Char) : (withoutCommentEnd cs).head? = cs.head? := by
  unfold withoutCommentEnd
  split <;> rfl

/-- What comes behind a star in a text that is cleared of `*)`. -/
theorem exists_withoutCommentEnd_star (cs : List Char) : ∃ ds,
    withoutCommentEnd ('*' :: cs) = '*' :: ds ∧ ds.head? ≠ some ')' := by
  by_cases hclose : cs.head? = some ')'
  · obtain ⟨ds, rfl⟩ := List.head?_eq_some_iff.1 hclose
    exact ⟨' ' :: ')' :: withoutCommentEnd ds, rfl, by simp⟩
  · refine ⟨withoutCommentEnd cs, withoutCommentEnd_cons fun _ => hclose, ?_⟩
    rwa [head?_withoutCommentEnd]

theorem head?_append_space {cs rest : List Char} {c : Char} (hc : c ≠ ' ')
    (h : cs.head? ≠ some c) : (cs ++ ' ' :: rest).head? ≠ some c := by
  cases cs with
  | nil => exact fun heq => hc (Option.some.inj heq).symm
  | cons d ds => exact h

/-- A text that is cleared of `*)` closes no comment. -/
theorem behindComment_withoutCommentEnd (cs rest : List Char) (depth : Nat) :
    behindComment depth (withoutCommentEnd cs ++ ' ' :: rest)
      = behindComment (depth + openings cs) (' ' :: rest) := by
  induction cs using withoutCommentEnd.induct generalizing depth with
  | case1 cs ih =>
    have hstar : openings ('*' :: ')' :: cs) = openings cs := by
      rw [openings_cons (by simp), openings_cons (by simp)]
    rw [hstar, ← ih depth]
    change behindComment depth ('*' :: ' ' :: ')' :: (withoutCommentEnd cs ++ ' ' :: rest)) = _
    rw [behindComment_cons (by simp) (by simp), behindComment_cons (by simp) (by simp),
      behindComment_cons (by simp) (by simp)]
  | case2 c cs hclose ih =>
    have hclose : c = '*' → cs.head? ≠ some ')' := by
      intro hc hhead
      obtain ⟨ds, rfl⟩ := List.head?_eq_some_iff.1 hhead
      exact hclose ds hc rfl
    rw [withoutCommentEnd_cons hclose, List.cons_append]
    by_cases hopen : c = '(' ∧ cs.head? = some '*'
    · -- The star is taken with the parenthesis, and could not have closed a comment either.
      obtain ⟨rfl, hhead⟩ := hopen
      obtain ⟨ds, rfl⟩ := List.head?_eq_some_iff.1 hhead
      obtain ⟨es, hstar, hes⟩ := exists_withoutCommentEnd_star ds
      have hskip : behindComment (depth + 1) ('*' :: (es ++ ' ' :: rest))
          = behindComment (depth + 1) (es ++ ' ' :: rest) :=
        behindComment_cons (by simp) (fun _ => head?_append_space (by decide) hes) _
      have ih := ih (depth + 1)
      rw [hstar, List.cons_append] at ih ⊢
      rw [openings_cons (by simp)] at ih
      rw [openings]
      change behindComment (depth + 1) (es ++ ' ' :: rest) = _
      rw [← hskip, ih, Nat.add_right_comm, Nat.add_assoc]
    · have hopen : c = '(' → cs.head? ≠ some '*' := fun hc hhead => hopen ⟨hc, hhead⟩
      rw [behindComment_cons, openings_cons hopen, ih]
      · exact fun hc => head?_append_space (by decide) (head?_withoutCommentEnd cs ▸ hopen hc)
      · exact fun hc => head?_append_space (by decide) (head?_withoutCommentEnd cs ▸ hclose hc)
  | case3 => rfl

/-- Text without parentheses and stars neither opens nor closes comments. -/
theorem behindComment_append {cs : List Char} (h : cs.all fun c => c != '(' && c != '*')
    (depth : Nat) (rest : List Char) :
    behindComment depth (cs ++ rest) = behindComment depth rest := by
  induction cs with
  | nil => rfl
  | cons c cs ih =>
    simp only [List.all_cons, Bool.and_eq_true, bne_iff_ne, ne_eq] at h
    rw [List.cons_append, behindComment_cons (fun hc => absurd hc h.1.1)
      (fun hc => absurd hc h.1.2), ih h.2]

/-- Behind the header one is outside all comments if the name of the file opens none, and otherwise
inside as many as it opens. -/
theorem afterComment_header (filename : String) (bindings : List Char) :
    afterComment (headerChars filename ++ bindings) =
      if openings filename.toList = 0 then some ('\n' :: '\n' :: bindings)
      else behindComment (openings filename.toList - 1) ('\n' :: '\n' :: bindings) := by
  have hstart : "(* Generated from ".toList = '(' :: '*' :: " Generated from ".toList := by decide
  have hstop : " by bind-dts. Do not edit. *)\n\n".toList
      = ' ' :: "by bind-dts. Do not edit. ".toList ++ ['*', ')', '\n', '\n'] := by decide
  unfold headerChars
  rw [hstart, hstop]
  simp only [List.append_assoc, List.cons_append, List.nil_append, afterComment]
  rw [behindComment_append (by decide), behindComment_withoutCommentEnd,
    behindComment_cons (by simp) (by simp), behindComment_append (by decide), Nat.zero_add]
  cases openings filename.toList with
  | zero => rfl
  | succ n => rfl

theorem openings_eq_zero_iff (cs : List Char) : openings cs = 0 ↔ ¬ ['(', '*'] <:+: cs := by
  induction cs using openings.induct with
  | case1 cs ih =>
    have hinfix : ['(', '*'] <:+: '(' :: '*' :: cs := ⟨[], cs, rfl⟩
    simp [openings, hinfix]
  | case2 c cs hopen ih =>
    rw [openings_cons fun hc hhead => ?_, ih, List.infix_cons_iff]
    · have hstart : ¬ ['(', '*'] <+: c :: cs := by
        rintro ⟨ds, hds⟩
        cases hds
        exact hopen ds rfl rfl
      simp [hstart]
    · obtain ⟨ds, rfl⟩ := List.head?_eq_some_iff.1 hhead
      exact hopen ds hc rfl
  | case3 => simp [openings]

/-- The header is one closed comment and two line feeds, whatever bindings come behind it, if and
only if the name of the file has no `(*` in it. With one it is not closed at all, so that the
bindings are inside it. -/
theorem header_closed_iff (filename : String) :
    ((∀ bindings, afterComment (headerChars filename ++ bindings)
        = some ('\n' :: '\n' :: bindings)) ↔ ¬ ['(', '*'] <:+: filename.toList) ∧
      (['(', '*'] <:+: filename.toList → ∃ depth, ∀ bindings,
        afterComment (headerChars filename ++ bindings)
          = behindComment depth ('\n' :: '\n' :: bindings)) := by
  constructor
  · rw [← openings_eq_zero_iff]
    constructor
    · intro h
      by_contra hopen
      have hnone : ∀ depth, behindComment depth ['\n', '\n'] = none := by
        intro depth
        rw [behindComment_cons (by decide) (by decide), behindComment_cons (by decide) (by decide)]
        rw [behindComment]
      have hheader := h []
      rw [afterComment_header, if_neg hopen, hnone] at hheader
      cases hheader
    · intro hnone bindings
      rw [afterComment_header, if_pos hnone]
  · intro hinfix
    refine ⟨openings filename.toList - 1, fun bindings => ?_⟩
    rw [afterComment_header, if_neg fun h => (openings_eq_zero_iff _).1 h hinfix]

/-- Closing a comment does no harm, opening one does. -/
theorem header_closed_iff_star :
    (∀ bindings, afterComment (headerChars "a**)b.d.ts" ++ bindings)
      = some ('\n' :: '\n' :: bindings)) ∧
    ∃ depth, ∀ bindings, afterComment (headerChars "(*)b.d.ts" ++ bindings)
      = behindComment depth ('\n' :: '\n' :: bindings) := by
  have hnone : ¬ ['(', '*'] <:+: "a**)b.d.ts".toList := (openings_eq_zero_iff _).1 (by decide)
  have hopen : ['(', '*'] <:+: "(*)b.d.ts".toList := ⟨[], ")b.d.ts".toList, by decide⟩
  exact ⟨(header_closed_iff "a**)b.d.ts").1.2 hnone, (header_closed_iff "(*)b.d.ts").2 hopen⟩

/-- A file name that opens a comment leaves the header open, and nothing behind it is read. -/
theorem header_unclosed :
    afterComment (headerChars "(*.d.ts") = none ∧
      afterComment (print {} "(*.d.ts"
        [.external ⟨none, false, "x", .named "string", false, false⟩]).toList = none := by
  simp only [print, String.toList_ofList]
  decide +kernel

end Layout

end Ambient
