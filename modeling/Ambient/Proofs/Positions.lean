import Ambient.Proofs.Scanning
import Ambient.Text.Position
import Ambient.Text.Split
import Mathlib.Data.List.DropRight
import Mathlib.Data.Set.Function
import Mathlib.Order.Bounds.Defs
/-!
# Lines and columns by counting

The line table finds the line of an offset by binary search. Between two characters its answer is
the naive count: one line more than there are line feeds before, and as many columns as characters
behind the last of these (`LineTable.position_width`). So the position is in the text
(`LineTable.inLines_position`), and further on in the text it is later (`LineTable.le_position`).

Any other offset has the position of the last place between two characters before it
(`LineTable.exists_boundary`). So every offset has the position that counting gives, and positions
come in the order of the offsets (`LineTable.position_exact`).
-/

namespace Ambient

/-! ## The last line of a text -/

/-- The text is cut behind its last line feed: `before` ends in it, or is empty if there is none. -/
structure LastLine (text before last : List Char) : Prop where
  text : text = before ++ last
  before : before = [] ∨ ∃ front, before = front ++ ['\n']
  last : '\n' ∉ last

namespace LastLine

variable {front text before last : List Char}

theorem exists_lastLine (text : List Char) : ∃ before last, LastLine text before last := by
  induction text with
  | nil => exact ⟨[], [], rfl, .inl rfl, List.not_mem_nil⟩
  | cons c cs ih =>
    obtain ⟨before, last, rfl, hbefore, hlast⟩ := ih
    rcases hbefore with rfl | ⟨front, rfl⟩
    · by_cases hc : c = '\n'
      · exact ⟨['\n'], last, by rw [hc]; rfl, .inr ⟨[], rfl⟩, hlast⟩
      · exact ⟨[], c :: last, rfl, .inl rfl, by simp [hlast, Ne.symm hc]⟩
    · exact ⟨c :: front ++ ['\n'], last, rfl, .inr ⟨c :: front, rfl⟩, hlast⟩

/-- More text goes on with the last line, or brings a later one. -/
theorem append (h : LastLine front before last) (text : List Char) :
    (∃ more, LastLine (front ++ text) before (last ++ more)) ∨
      ∃ before' last', LastLine (front ++ text) before' last' ∧
        before.count '\n' < before'.count '\n' := by
  obtain ⟨rfl, hbefore, hlast⟩ := h
  obtain ⟨between, more, rfl, hbetween, hmore⟩ := exists_lastLine text
  rcases hbetween with rfl | ⟨ahead, rfl⟩
  · exact .inl ⟨more, by simp, hbefore, by simp [hlast, hmore]⟩
  · refine .inr ⟨before ++ last ++ ahead ++ ['\n'], more, ⟨by simp, .inr ⟨_, rfl⟩, hmore⟩, ?_⟩
    simp only [List.count_append, List.count_singleton_self]
    omega

end LastLine

/-! ## Lines -/

theorem pieces_append_separator (separator : Char) (cs ds : List Char) :
    pieces separator (cs ++ separator :: ds) = pieces separator cs ++ pieces separator ds := by
  induction cs with
  | nil =>
    cases hds : pieces separator ds with
    | nil => exact absurd hds (pieces_ne_nil _ _)
    | cons p ps => simp [pieces, hds]
  | cons c cs ih =>
    rw [List.cons_append, pieces, pieces, ih]
    cases hcs : pieces separator cs with
    | nil => exact absurd hcs (pieces_ne_nil _ _)
    | cons p ps =>
      dsimp only [List.cons_append]
      split <;> rfl

theorem length_pieces (separator : Char) (cs : List Char) :
    (pieces separator cs).length = cs.count separator + 1 := by
  induction cs with
  | nil => rfl
  | cons c cs ih =>
    rw [pieces]
    cases hcs : pieces separator cs with
    | nil => exact absurd hcs (pieces_ne_nil _ _)
    | cons p ps =>
      rw [hcs] at ih
      by_cases hc : c = separator
      · simp [hc, ← ih]
      · simp [hc, ← ih]

theorem pieces_append_of_not_mem {separator : Char} {cs : List Char} (h : separator ∉ cs)
    (ds : List Char) : ∃ p ps, pieces separator (cs ++ ds) = (cs ++ p) :: ps := by
  induction cs with
  | nil =>
    cases hds : pieces separator ds with
    | nil => exact absurd hds (pieces_ne_nil _ _)
    | cons p ps => exact ⟨p, ps, hds⟩
  | cons c cs ih =>
    rw [List.mem_cons, not_or] at h
    obtain ⟨p, ps, heq⟩ := ih h.2
    exact ⟨p, ps, by simp [pieces, heq, Ne.symm h.1]⟩

/-- The order of positions: by line, and by column in the same line. -/
def Position.Le (p q : Position) : Prop := p.line < q.line ∨ p.line = q.line ∧ p.column ≤ q.column

/-- The strict order of positions. -/
def Position.Lt (p q : Position) : Prop := p.line < q.line ∨ p.line = q.line ∧ p.column < q.column

theorem Position.Lt.le {p q : Position} (h : p.Lt q) : p.Le q :=
  h.imp_right (And.imp_right Nat.le_of_lt)

theorem Position.Lt.ne {p q : Position} (h : p.Lt q) : p ≠ q := by
  rintro rfl
  rcases h with h | ⟨-, h⟩
  · exact Nat.lt_irrefl _ h
  · exact Nat.lt_irrefl _ h

/-- The position behind a text, by counting: one line more than there are line feeds, and a column
for each character behind the last of these. -/
def Position.behind (front : List Char) : Position :=
  ⟨front.count '\n' + 1, (front.rtakeWhile (· != '\n')).length⟩

theorem LastLine.behind_eq {front before last : List Char} (h : LastLine front before last) :
    Position.behind front = ⟨before.count '\n' + 1, last.length⟩ := by
  obtain ⟨rfl, hbefore, hlast⟩ := h
  have hcount : (before ++ last).count '\n' = before.count '\n' := by
    rw [List.count_append, List.count_eq_zero.2 hlast, Nat.add_zero]
  have hkept : ∀ c ∈ last.reverse, (c != '\n') = true := by
    intro c hc
    have hne : c ≠ '\n' := fun h => hlast (h ▸ List.mem_reverse.1 hc)
    simpa using hne
  have htake : (before ++ last).rtakeWhile (· != '\n') = last := by
    rw [List.rtakeWhile, List.reverse_append, List.takeWhile_append_of_pos hkept]
    rcases hbefore with rfl | ⟨front, rfl⟩
    · simp
    · simp
  rw [Position.behind, hcount, htake]

/-- The position is in one of the lines, at a character or behind the last one. -/
def Position.InLines (lines : List (List Char)) (p : Position) : Prop :=
  ∃ before line after, lines = before ++ line :: after ∧ p.line = before.length + 1 ∧
    p.column ≤ line.length

theorem LastLine.inLines {front before last : List Char} (h : LastLine front before last)
    (rest : List Char) : Position.InLines (pieces '\n' (front ++ rest))
      ⟨before.count '\n' + 1, last.length⟩ := by
  obtain ⟨rfl, hbefore, hlast⟩ := h
  obtain ⟨p, ps, heq⟩ := pieces_append_of_not_mem hlast rest
  rcases hbefore with rfl | ⟨front, rfl⟩
  · exact ⟨[], last ++ p, ps, heq, rfl, by simp⟩
  · refine ⟨pieces '\n' front, last ++ p, ps, ?_, ?_, by simp⟩
    · rw [← heq, ← pieces_append_separator]
      simp
    · simp [length_pieces]

/-! ## Offsets -/

theorem boundaryBelow_append (front rest : List Char) :
    boundaryBelow (front ++ rest) (width front) = width front := by
  induction front with
  | nil =>
    cases rest with
    | nil => rfl
    | cons c cs =>
      have := c.utf8Size_pos
      rw [List.nil_append, width_nil, boundaryBelow, if_neg (by omega)]
  | cons c cs ih =>
    rw [List.cons_append, width_cons, boundaryBelow, if_pos (Nat.le_add_right _ _),
      Nat.add_sub_cancel_left, ih]

/-- The last place between two characters up to an offset. -/
theorem boundaryBelow_eq (text : List Char) (offset : Nat) :
    ∃ front rest, text = front ++ rest ∧ boundaryBelow text offset = width front ∧
      width front ≤ offset ∧ ∀ c ∈ rest.head?, offset < width front + c.utf8Size := by
  induction text generalizing offset with
  | nil => exact ⟨[], [], rfl, rfl, Nat.zero_le _, by simp⟩
  | cons c cs ih =>
    rw [boundaryBelow]
    split
    · obtain ⟨front, rest, rfl, heq, hle, hnext⟩ := ih (offset - c.utf8Size)
      refine ⟨c :: front, rest, rfl, by rw [heq, width_cons], ?_, fun d hd => ?_⟩
      · rw [width_cons]
        omega
      · have := hnext d hd
        rw [width_cons]
        omega
    · refine ⟨[], c :: cs, rfl, rfl, Nat.zero_le _, fun d hd => ?_⟩
      obtain rfl : c = d := by simpa using hd
      rw [width_nil]
      omega

theorem isValid_iff_width {source : String} {offset : Nat} :
    String.Pos.Raw.IsValid source ⟨offset⟩ ↔
      ∃ front rest, source.toList = front ++ rest ∧ offset = width front := by
  constructor
  · intro h
    obtain ⟨front, rest, rfl, hoffset⟩ := String.Pos.Raw.isValid_iff_exists_append.1 h
    refine ⟨front.toList, rest.toList, String.toList_append, ?_⟩
    rw [width_toList]
    exact congrArg String.Pos.Raw.byteIdx hoffset
  · rintro ⟨front, rest, hsource, rfl⟩
    exact isValid_width hsource

/-- Of two fronts of a text the one that takes up less is a front of the other. -/
theorem exists_append_of_width_le {front front' rest rest' : List Char}
    (h : front ++ rest = front' ++ rest') (hle : width front ≤ width front') :
    ∃ text, front' = front ++ text ∧ rest = text ++ rest' := by
  rcases List.append_eq_append_iff.1 h with ⟨text, rfl, rfl⟩ | ⟨text, rfl, rfl⟩
  · exact ⟨text, rfl, rfl⟩
  · have hnil : text = [] := width_eq_zero.1 (by rw [width_append] at hle; omega)
    exact ⟨[], by simp [hnil], by simp [hnil]⟩

theorem dropBytes_append (front rest : List Char) :
    dropBytes (front ++ rest) (width front) = rest := by
  induction front with
  | nil => cases rest <;> simp [dropBytes]
  | cons c cs ih =>
    have := c.utf8Size_pos
    rw [List.cons_append, width_cons, dropBytes, if_neg (by omega), Nat.add_sub_cancel_left, ih]

theorem charsBefore_append (front rest : List Char) :
    charsBefore (front ++ rest) (width front) = front.length := by
  induction front with
  | nil => cases rest <;> simp [charsBefore]
  | cons c cs ih =>
    have := c.utf8Size_pos
    rw [List.cons_append, width_cons, charsBefore, if_neg (by omega), Nat.add_sub_cancel_left, ih,
      List.length_cons]

theorem lineStartsFrom_append (offset : Nat) (cs ds : List Char) :
    lineStartsFrom offset (cs ++ ds)
      = lineStartsFrom offset cs ++ lineStartsFrom (offset + width cs) ds := by
  induction cs generalizing offset with
  | nil => simp [lineStartsFrom]
  | cons c cs ih =>
    simp only [List.cons_append, lineStartsFrom, ih, width_cons, Nat.add_assoc]
    split <;> rfl

theorem mem_lineStartsFrom {offset x : Nat} {cs : List Char} (h : x ∈ lineStartsFrom offset cs) :
    offset < x ∧ x ≤ offset + width cs := by
  induction cs generalizing offset with
  | nil => simp [lineStartsFrom] at h
  | cons c cs ih =>
    have hpos := c.utf8Size_pos
    simp only [lineStartsFrom] at h
    rw [width_cons]
    split at h
    · rcases List.mem_cons.1 h with rfl | h
      · omega
      · have := ih h
        omega
    · have := ih h
      omega

theorem pairwise_lineStartsFrom (offset : Nat) (cs : List Char) :
    (lineStartsFrom offset cs).Pairwise (· < ·) := by
  induction cs generalizing offset with
  | nil => exact .nil
  | cons c cs ih =>
    simp only [lineStartsFrom]
    split
    · exact .cons (fun x hx => (mem_lineStartsFrom hx).1) (ih _)
    · exact ih _

theorem lineStartsFrom_of_not_mem {cs : List Char} (h : '\n' ∉ cs) (offset : Nat) :
    lineStartsFrom offset cs = [] := by
  induction cs generalizing offset with
  | nil => rfl
  | cons c cs ih =>
    rw [List.mem_cons, not_or] at h
    simp [lineStartsFrom, Ne.symm h.1, ih h.2]

theorem length_lineStartsFrom (offset : Nat) (cs : List Char) :
    (lineStartsFrom offset cs).length = cs.count '\n' := by
  induction cs generalizing offset with
  | nil => rfl
  | cons c cs ih =>
    simp only [lineStartsFrom]
    by_cases hc : c = '\n'
    · simp [hc, ih]
    · simp [hc, ih]

/-- Of the lines that start up to the end of a front of the text, the last one starts behind its
last line feed. -/
theorem LastLine.starts_eq {front before last : List Char} (h : LastLine front before last) :
    ∃ starts, 0 :: lineStartsFrom 0 front = starts ++ [width before] ∧
      starts.length = before.count '\n' := by
  obtain ⟨rfl, hbefore, hlast⟩ := h
  rw [lineStartsFrom_append, lineStartsFrom_of_not_mem hlast, List.append_nil]
  rcases hbefore with rfl | ⟨front, rfl⟩
  · exact ⟨[], rfl, rfl⟩
  · refine ⟨0 :: lineStartsFrom 0 front, ?_, by simp [length_lineStartsFrom]⟩
    rw [lineStartsFrom_append, width_append]
    simp [lineStartsFrom]

/-! ## The line table -/

namespace LineTable

/-- The search finds the boundary between the starts up to the offset and those behind it. -/
theorem search_eq {starts : Array Nat} {offset n : Nat}
    (hn : ∀ k, starts[k]?.any (· ≤ offset) ↔ k ≤ n) {low high : Nat} (hlow : low ≤ n)
    (hhigh : n < high) : search starts offset low high = n := by
  induction hgap : high - low using Nat.strong_induction_on generalizing low high with
  | _ gap ih =>
  rw [search]
  split
  · simp only [hn]
    split
    · exact ih _ (by omega) ‹_› hhigh rfl
    · exact ih _ (by omega) hlow (by omega) rfl
  · omega

/-- Where the first starts are up to the offset and the others behind it. -/
theorem any_getElem?_append {offset k : Nat} {starts others : List Nat}
    (hstarts : ∀ x ∈ starts, x ≤ offset) (hothers : ∀ x ∈ others, offset < x) :
    (starts ++ others)[k]?.any (· ≤ offset) ↔ k < starts.length := by
  by_cases hk : k < starts.length
  · rw [List.getElem?_append_left hk, List.getElem?_eq_getElem hk]
    simp [hk, hstarts _ (List.getElem_mem hk)]
  · rw [List.getElem?_append_right (by omega)]
    cases hget : others[k - starts.length]? with
    | none => simp [hk]
    | some x => simp [hk, hothers x (List.mem_of_getElem? hget)]

section

variable {source : String} {front rest before last : List Char}
  (hsource : source.toList = front ++ rest) (h : LastLine front before last)

include hsource h

/-- The line of a place between two characters is the last one that starts up to it. -/
theorem any_starts_iff (k : Nat) :
    (ofText source).starts[k]?.any (· ≤ width front) ↔ k ≤ before.count '\n' := by
  obtain ⟨starts, hstarts, hlength⟩ := h.starts_eq
  have hup : ∀ x ∈ 0 :: lineStartsFrom 0 front, x ≤ width front := by
    intro x hx
    rcases List.mem_cons.1 hx with rfl | hx
    · exact Nat.zero_le _
    · have := mem_lineStartsFrom hx
      omega
  have hsize : (0 :: lineStartsFrom 0 front).length = before.count '\n' + 1 := by
    rw [hstarts, List.length_append, hlength]
    rfl
  rw [ofText, hsource, lineStartsFrom_append, Nat.zero_add, List.getElem?_toArray,
    ← List.cons_append, any_getElem?_append hup fun x hx => (mem_lineStartsFrom hx).1, hsize]
  omega

theorem getElem?_starts : (ofText source).starts[before.count '\n']? = some (width before) := by
  obtain ⟨starts, hstarts, hlength⟩ := h.starts_eq
  rw [ofText, hsource, lineStartsFrom_append, Nat.zero_add, ← List.cons_append, hstarts, ← hlength]
  simp

theorem position_width :
    (ofText source).position (width front) = ⟨before.count '\n' + 1, last.length⟩ := by
  have hstart := getElem?_starts hsource h
  have hline : search (ofText source).starts (width front) 0 (ofText source).starts.size
      = before.count '\n' :=
    search_eq (any_starts_iff hsource h) (Nat.zero_le _) (Array.getElem?_eq_some_iff.1 hstart).1
  obtain ⟨rfl, -, -⟩ := h
  have htext : (ofText source).text = before ++ last ++ rest := hsource
  simp only [position, htext, boundaryBelow_append]
  rw [hline, hstart, Option.getD_some, width_append, Nat.add_sub_cancel_left, List.append_assoc,
    dropBytes_append, charsBefore_append]

end

/-- The position of a place between two characters is in the text. -/
theorem inLines_position {source : String} {front rest : List Char}
    (hsource : source.toList = front ++ rest) :
    ((ofText source).position (width front)).InLines (pieces '\n' source.toList) := by
  obtain ⟨before, last, h⟩ := LastLine.exists_lastLine front
  rw [position_width hsource h, hsource]
  exact h.inLines rest

/-- Behind more text positions are strictly later. -/
theorem lt_position {source : String} {front text rest : List Char}
    (hsource : source.toList = front ++ text ++ rest) (hne : text ≠ []) :
    ((ofText source).position (width front)).Lt
      ((ofText source).position (width (front ++ text))) := by
  obtain ⟨before, last, h⟩ := LastLine.exists_lastLine front
  rw [position_width (hsource.trans (List.append_assoc ..)) h]
  rcases h.append text with ⟨more, h'⟩ | ⟨before', last', h', hlt⟩
  · rw [position_width hsource h']
    have hmore : text = more := by
      have heq := h'.text
      rw [h.text, List.append_assoc] at heq
      exact List.append_cancel_left (List.append_cancel_left heq)
    have hpos := List.length_pos_of_ne_nil (hmore ▸ hne)
    exact .inr ⟨rfl, by simpa using hpos⟩
  · rw [position_width hsource h']
    exact .inl (Nat.succ_lt_succ hlt)

/-- Further on in the text positions are later. -/
theorem le_position {source : String} {front text rest : List Char}
    (hsource : source.toList = front ++ text ++ rest) :
    ((ofText source).position (width front)).Le
      ((ofText source).position (width (front ++ text))) := by
  by_cases hne : text = []
  · rw [hne, List.append_nil]
    exact .inr ⟨rfl, Nat.le_refl _⟩
  · exact (lt_position hsource hne).le

/-! ## Any offset -/

/-- An offset has the position of the last place between two characters up to it. -/
theorem exists_boundary (text : String) (offset : Nat) :
    ∃ front rest, text.toList = front ++ rest ∧
      IsGreatest {o | String.Pos.Raw.IsValid text ⟨o⟩ ∧ o ≤ min offset text.utf8ByteSize}
        (width front) ∧
      (ofText text).position offset = (ofText text).position (width front) := by
  obtain ⟨front, rest, htext, heq, hle, hnext⟩ := boundaryBelow_eq text.toList offset
  refine ⟨front, rest, htext, ⟨⟨isValid_width htext, ?_⟩, ?_⟩, ?_⟩
  · rw [← width_toList, htext, width_append]
    omega
  · rintro o ⟨hvalid, ho⟩
    obtain ⟨front', rest', htext', rfl⟩ := isValid_iff_width.1 hvalid
    by_contra hlt
    -- A longer front would have the next character in it, which ends behind the offset.
    obtain ⟨more, rfl, rfl⟩ :=
      exists_append_of_width_le (htext.symm.trans htext') (Nat.le_of_not_le hlt)
    cases more with
    | nil => simp at hlt
    | cons c more =>
      have := hnext c rfl
      simp only [width_append, width_cons] at ho
      omega
  · have hwidth : boundaryBelow (ofText text).text (width front) = width front := by
      rw [ofText, htext]
      exact boundaryBelow_append front rest
    have hoffset : boundaryBelow (ofText text).text offset = width front := heq
    unfold position
    rw [hwidth, hoffset]

/-- What a binary search for a number in an increasing array answers: where it stands or, as an
error, where it would have to be put in. -/
inductive Locates (starts : Array Nat) (offset : Nat) : Except Nat Nat → Prop
  | found {k : Nat} : starts[k]? = some offset → Locates starts offset (.ok k)
  | missing {k : Nat} : k ≤ starts.size →
    (∀ i x, i < k → starts[i]? = some x → x < offset) →
    (∀ i x, k ≤ i → starts[i]? = some x → offset < x) →
    Locates starts offset (.error k)

/-- How the position `p` of the place `offset` between two characters is found in the table. A
binary search for `offset` answers the line that starts there or, never at the first line, the line
behind the one that it is in. That line starts at a character, not behind `offset`, and the columns
are the characters from there to `offset`. -/
structure Leads (table : LineTable) (offset : Nat) (p : Position) : Prop where
  increasing : table.starts.toList.Pairwise (· < ·)
  answered : ∃ r, Locates table.starts offset r
  found : ∀ k, Locates table.starts offset (.ok k) → p.line = k + 1
  missing : ∀ k, Locates table.starts offset (.error k) → 0 < k ∧ p.line = k - 1 + 1
  slice : ∃ before line after, table.text = before ++ line ++ after ∧
    table.starts[p.line - 1]? = some (width before) ∧ width (before ++ line) = offset ∧
    p.column = line.length

section

variable {starts : Array Nat} {offset n : Nat} (hlt : starts.toList.Pairwise (· < ·))
  (hn : ∀ k, starts[k]?.any (· ≤ offset) ↔ k ≤ n)

include hlt in
theorem lt_of_getElem? {i j x y : Nat} (hij : i < j) (hx : starts[i]? = some x)
    (hy : starts[j]? = some y) : x < y := by
  obtain ⟨hi, rfl⟩ := Array.getElem?_eq_some_iff.1 hx
  obtain ⟨hj, rfl⟩ := Array.getElem?_eq_some_iff.1 hy
  exact List.pairwise_iff_getElem.1 hlt i j hi hj hij

include hn in
theorem exists_le_of_any : ∃ x, starts[n]? = some x ∧ x ≤ offset := by
  simpa [Option.any_eq_true] using (hn n).2 (Nat.le_refl n)

include hn in
theorem le_of_getElem? {k x : Nat} (hk : starts[k]? = some x) : x ≤ offset ↔ k ≤ n := by
  rw [← hn k, hk]
  simp

include hlt hn

theorem Locates.eq_of_found {k : Nat} (h : Locates starts offset (.ok k)) : k = n := by
  cases h with
  | found hk =>
    have hle := (le_of_getElem? hn hk).1 (Nat.le_refl offset)
    obtain ⟨x, hx, hxle⟩ := exists_le_of_any hn
    by_contra hne
    have := lt_of_getElem? hlt (by omega) hk hx
    omega

omit hlt in
theorem Locates.eq_of_missing {k : Nat} (h : Locates starts offset (.error k)) : k = n + 1 := by
  cases h with
  | missing hsize hbefore hbehind =>
    obtain ⟨x, hx, hxle⟩ := exists_le_of_any hn
    have hlow : n < k := by
      by_contra hle
      have := hbehind n x (by omega) hx
      omega
    obtain ⟨y, hy⟩ : ∃ y, starts[k - 1]? = some y :=
      ⟨_, Array.getElem?_eq_getElem (show k - 1 < starts.size by omega)⟩
    have hyle := (le_of_getElem? hn hy).1 (Nat.le_of_lt (hbefore _ y (by omega) hy))
    omega

theorem exists_locates : ∃ r, Locates starts offset r := by
  obtain ⟨x, hx, hxle⟩ := exists_le_of_any hn
  have hsize := (Array.getElem?_eq_some_iff.1 hx).1
  by_cases heq : x = offset
  · exact ⟨.ok n, .found (heq ▸ hx)⟩
  · refine ⟨.error (n + 1), .missing hsize (fun i y hi hy => ?_) fun i y hi hy => ?_⟩
    · rcases Nat.lt_succ_iff_lt_or_eq.1 hi with hi | rfl
      · have := lt_of_getElem? hlt hi hy hx
        omega
      · obtain rfl := Option.some.inj (hx.symm.trans hy)
        omega
    · have := (not_congr (le_of_getElem? hn hy)).2 (by omega)
      omega

end

theorem leads {source : String} {front rest : List Char} (hsource : source.toList = front ++ rest) :
    (ofText source).Leads (width front) ((ofText source).position (width front)) := by
  obtain ⟨before, last, h⟩ := LastLine.exists_lastLine front
  have hlt : (ofText source).starts.toList.Pairwise (· < ·) :=
    .cons (fun x hx => (mem_lineStartsFrom hx).1) (pairwise_lineStartsFrom 0 source.toList)
  have hn := any_starts_iff hsource h
  have hstart := getElem?_starts hsource h
  rw [position_width hsource h]
  refine ⟨hlt, exists_locates hlt hn, fun k hk => ?_, fun k hk => ?_, before, last, rest, ?_⟩
  · rw [hk.eq_of_found hlt hn]
  · rw [hk.eq_of_missing hn]
    exact ⟨Nat.succ_pos _, rfl⟩
  · exact ⟨by rw [← h.text]; exact hsource, hstart, by rw [← h.text], rfl⟩

theorem lt_position_of_isValid {text : String} {o o' : Nat}
    (ho : String.Pos.Raw.IsValid text ⟨o⟩) (ho' : String.Pos.Raw.IsValid text ⟨o'⟩) (hlt : o < o') :
    ((ofText text).position o).Lt ((ofText text).position o') := by
  obtain ⟨front, rest, htext, rfl⟩ := isValid_iff_width.1 ho
  obtain ⟨front', rest', htext', rfl⟩ := isValid_iff_width.1 ho'
  obtain ⟨more, rfl, rfl⟩ :=
    exists_append_of_width_le (htext.symm.trans htext') (Nat.le_of_lt hlt)
  refine lt_position htext' ?_
  rintro rfl
  simp at hlt

theorem le_position_of_le (text : String) {offset offset' : Nat} (hle : offset ≤ offset') :
    ((ofText text).position offset).Le ((ofText text).position offset') := by
  obtain ⟨front, rest, htext, hgreatest, heq⟩ := exists_boundary text offset
  obtain ⟨front', rest', htext', hgreatest', heq'⟩ := exists_boundary text offset'
  have hwidth : width front ≤ width front' := by
    refine hgreatest'.2 ⟨hgreatest.1.1, ?_⟩
    have := hgreatest.1.2
    omega
  obtain ⟨more, rfl, rfl⟩ := exists_append_of_width_le (htext.symm.trans htext') hwidth
  rw [heq, heq']
  exact le_position htext'

/-- The position of an offset is the one that counting gives in front of the last boundary of
characters up to it, and looking it up in the table always succeeds. So positions come in the order
of the offsets, and different boundaries have different positions. -/
theorem position_exact (text : String) :
    (∀ offset, ∃ front rest, text.toList = front ++ rest ∧
      IsGreatest {o | String.Pos.Raw.IsValid text ⟨o⟩ ∧ o ≤ min offset text.utf8ByteSize}
        (width front) ∧
      (ofText text).position offset = .behind front ∧
      (ofText text).Leads (width front) ((ofText text).position offset)) ∧
    (∀ offset offset', offset ≤ offset' →
      ((ofText text).position offset).Le ((ofText text).position offset')) ∧
    (∀ o o', String.Pos.Raw.IsValid text ⟨o⟩ → String.Pos.Raw.IsValid text ⟨o'⟩ → o < o' →
      ((ofText text).position o).Lt ((ofText text).position o')) ∧
    Set.InjOn (ofText text).position {o | String.Pos.Raw.IsValid text ⟨o⟩} := by
  refine ⟨fun offset => ?_, fun offset offset' hle => le_position_of_le text hle,
    fun o o' ho ho' hlt => lt_position_of_isValid ho ho' hlt, fun o ho o' ho' heq => ?_⟩
  · obtain ⟨front, rest, htext, hgreatest, heq⟩ := exists_boundary text offset
    obtain ⟨before, last, h⟩ := LastLine.exists_lastLine front
    rw [heq]
    refine ⟨front, rest, htext, hgreatest, ?_, leads htext⟩
    rw [position_width htext h, h.behind_eq]
  · rcases Nat.lt_trichotomy o o' with hlt | rfl | hlt
    · exact absurd heq (lt_position_of_isValid ho ho' hlt).ne
    · rfl
    · exact absurd heq.symm (lt_position_of_isValid ho' ho hlt).ne

/-- In a text with a character of two bytes: an offset inside it and one behind the end, and the
boundaries around the line feed. -/
theorem position_exact_accented :
    String.Pos.Raw.IsValid "é\nab" ⟨2⟩ ∧ String.Pos.Raw.IsValid "é\nab" ⟨3⟩ ∧
      ((ofText "é\nab").position 1).Le ((ofText "é\nab").position 99) ∧
      ((ofText "é\nab").position 2).Lt ((ofText "é\nab").position 3) := by
  obtain ⟨-, hle, hlt, -⟩ := position_exact "é\nab"
  have htwo : String.Pos.Raw.IsValid "é\nab" ⟨2⟩ :=
    isValid_iff_width.2 ⟨['é'], ['\n', 'a', 'b'], rfl, rfl⟩
  have hthree : String.Pos.Raw.IsValid "é\nab" ⟨3⟩ :=
    isValid_iff_width.2 ⟨['é', '\n'], ['a', 'b'], rfl, rfl⟩
  exact ⟨htwo, hthree, hle 1 99 (by decide), hlt 2 3 htwo hthree (by decide)⟩

end LineTable

end Ambient
