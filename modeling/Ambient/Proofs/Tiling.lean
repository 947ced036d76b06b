import Ambient.Proofs.Scanning
/-!
# Tokens and trivia tile the text

Between the tokens of a source text there are only complete pieces of trivia: white space, line
breaks and comments. Scanning cuts the text into trivia and tokens without loss, and a token is
marked as standing behind a line break exactly if the trivia before it break the line
(`tokenize_tiles`). Only a token that takes up no text stops the scanner before the end; the text
behind such a token is not covered (`not_covered_wideSpace`).
-/

namespace Ambient

/-! ## Trivia -/

/-- A piece of the text between tokens. A line comment runs through a line feed or, as a
`lastComment`, to the end of the text. -/
inductive Trivia where
  | space (c : Char)
  | lineBreak (c : Char)
  | lineComment (body : List Char)
  | lastComment (body : List Char)
  | blockComment (body : List Char)
deriving DecidableEq, Repr

namespace Trivia

/-- The text of the piece. -/
def text : Trivia → List Char
  | space c => [c]
  | lineBreak c => [c]
  | lineComment body => '/' :: '/' :: (body ++ ['\n'])
  | lastComment body => '/' :: '/' :: body
  | blockComment body => '/' :: '*' :: (body ++ ['*', '/'])

/-- The piece is complete where the text `rest` comes behind it. -/
def IsComplete (rest : List Char) : Trivia → Prop
  | space c => isSpace c
  | lineBreak c => isLineBreak c
  | lineComment body => '\n' ∉ body
  | lastComment body => '\n' ∉ body ∧ rest = []
  | blockComment body => ¬ ['*', '/'] <:+: body

/-- Whether the piece breaks the line: a line break outside comments does, and so does every line
comment, but a block comment only with a line feed or a carriage return in it. -/
def breaksLine : Trivia → Bool
  | space _ => false
  | lineBreak _ => true
  | lineComment _ => true
  | lastComment _ => true
  | blockComment body => body.any fun c => c == '\n' || c == '\r'

/-- The text of pieces one behind the other. -/
def textOf (ps : List Trivia) : List Char := ps.flatMap text

/-- The pieces are complete where the text `rest` comes behind the last of them. -/
def AllComplete (rest : List Char) : List Trivia → Prop
  | [] => True
  | p :: ps => p.IsComplete (textOf ps ++ rest) ∧ AllComplete rest ps

@[simp] theorem textOf_nil : textOf [] = [] := rfl

@[simp] theorem textOf_cons (p : Trivia) (ps : List Trivia) :
    textOf (p :: ps) = p.text ++ textOf ps := rfl

end Trivia

/-! ## Passing trivia -/

theorem gapLine_append {body : List Char} (hbody : '\n' ∉ body) (offset : Nat) (rest : List Char) :
    gapLine offset (body ++ '\n' :: rest) = gap true (offset + width body + 1) rest := by
  induction body generalizing offset with
  | nil =>
    rw [List.nil_append, gapLine, if_pos (by decide)]
    rfl
  | cons c body ih =>
    simp only [List.mem_cons, not_or] at hbody
    rw [List.cons_append, gapLine, if_neg (by simpa using Ne.symm hbody.1), ih hbody.2, width_cons,
      Nat.add_assoc offset]

theorem gapLine_last {body : List Char} (hbody : '\n' ∉ body) (offset : Nat) :
    gapLine offset body = .passed true (offset + width body) [] := by
  induction body generalizing offset with
  | nil => rw [gapLine, width_nil, Nat.add_zero]
  | cons c body ih =>
    simp only [List.mem_cons, not_or] at hbody
    rw [gapLine, if_neg (by simpa using Ne.symm hbody.1), ih hbody.2, width_cons, Nat.add_assoc]

theorem gapBlock_append {body : List Char} (hbody : ¬ ['*', '/'] <:+: body) (before : Bool)
    (start : Nat) (comment : List Char) (newline : Bool) (offset : Nat) (rest : List Char) :
    gapBlock before start comment newline offset (body ++ '*' :: '/' :: rest)
      = gap (newline || body.any fun c => c == '\n' || c == '\r')
          (offset + width body + 2) rest := by
  induction body generalizing newline offset with
  | nil =>
    rw [List.nil_append, gapBlock, width_nil, Nat.add_zero, List.any_nil, Bool.or_false]
  | cons c body ih =>
    have hshort : ¬ ['*', '/'] <:+: body := fun h => hbody (List.infix_cons h)
    have hopen : ∀ tail, c = '*' → body ++ '*' :: '/' :: rest = '/' :: tail → False := by
      rintro tail rfl htail
      cases body with
      | nil => cases htail
      | cons d body =>
        obtain rfl : d = '/' := (List.cons.inj htail).1
        exact hbody ⟨[], body, rfl⟩
    rw [List.cons_append, gapBlock, ih hshort, width_cons, List.any_cons, ← Nat.add_assoc offset,
      Bool.or_assoc, ← Bool.or_assoc newline]
    · simp only [Bool.or_assoc]
    · exact hopen

theorem isLineBreak_eq_false {c : Char} (h : isSpace c) : isLineBreak c = false := by
  simp only [isSpace, Bool.or_eq_true, beq_iff_eq] at h
  rcases h with ((((rfl | rfl) | rfl) | rfl) | rfl) | rfl <;> rfl

theorem width_text (p : Trivia) : width p.text = match p with
    | .space c => c.utf8Size
    | .lineBreak c => c.utf8Size
    | .lineComment body => 2 + width body + 1
    | .lastComment body => 2 + width body
    | .blockComment body => 2 + width body + 2 := by
  cases p <;> simp [Trivia.text, Char.utf8Size] <;> omega

theorem gap_blank {c : Char} (hc : isLineBreak c || isSpace c) (newline : Bool) (offset : Nat)
    (rest : List Char) : gap newline offset (c :: rest)
      = gap (newline || isLineBreak c) (offset + c.utf8Size) rest := by
  have hslash : c ≠ '/' := by
    rintro rfl
    revert hc
    decide
  rw [gap]
  · cases hline : isLineBreak c with
    | true => rw [if_pos rfl, Bool.or_true]
    | false =>
      rw [hline, Bool.false_or] at hc
      rw [if_neg Bool.false_ne_true, if_pos hc, Bool.or_false]
  · exact fun _ h => absurd h hslash
  · exact fun _ h => absurd h hslash

/-- A complete piece of trivia is passed, and counted if it breaks the line. -/
theorem gap_text {p : Trivia} {rest : List Char} (hp : p.IsComplete rest) (newline : Bool)
    (offset : Nat) : gap newline offset (p.text ++ rest)
      = gap (newline || p.breaksLine) (offset + width p.text) rest := by
  rw [width_text]
  cases p with
  | space c =>
    have hspace : isSpace c = true := hp
    have hline : isLineBreak c = false := isLineBreak_eq_false hspace
    change gap newline offset (c :: rest) = _
    rw [gap_blank (by simp [hspace]), hline]
    rfl
  | lineBreak c =>
    have hline : isLineBreak c = true := hp
    change gap newline offset (c :: rest) = _
    rw [gap_blank (by simp [hline]), hline]
    rfl
  | lineComment body =>
    change gap newline offset ('/' :: '/' :: (body ++ ['\n'] ++ rest)) = _
    rw [gap, List.append_assoc, List.singleton_append, gapLine_append hp, Trivia.breaksLine,
      Bool.or_true, Nat.add_assoc offset, Nat.add_assoc offset]
  | lastComment body =>
    obtain ⟨hbody, rfl⟩ := hp
    change gap newline offset ('/' :: '/' :: (body ++ [])) = _
    rw [gap, List.append_nil, gapLine_last hbody, gap, Trivia.breaksLine, Bool.or_true,
      Nat.add_assoc offset]
  | blockComment body =>
    change gap newline offset ('/' :: '*' :: (body ++ ['*', '/'] ++ rest)) = _
    rw [gap, List.append_assoc, List.cons_append, List.singleton_append, gapBlock_append hp,
      Trivia.breaksLine, Nat.add_assoc offset, Nat.add_assoc offset]

theorem gap_textOf {ps : List Trivia} {rest : List Char} (hps : Trivia.AllComplete rest ps)
    (newline : Bool) (offset : Nat) : gap newline offset (Trivia.textOf ps ++ rest)
      = gap (newline || ps.any Trivia.breaksLine) (offset + width (Trivia.textOf ps)) rest := by
  induction ps generalizing newline offset with
  | nil => simp
  | cons p ps ih =>
    rw [Trivia.textOf_cons, List.append_assoc, gap_text hps.1, ih hps.2, width_append,
      List.any_cons, Bool.or_assoc, Nat.add_assoc]

/-! ## The gap before a token as trivia -/

namespace Gap

/-- The text behind the gap. An open comment is behind it, too. -/
def tail : Gap → List Char
  | passed _ _ rest => rest
  | unclosed _ _ comment => comment

/-- Whether a line break was passed. -/
def newline : Gap → Bool
  | passed newline _ _ => newline
  | unclosed newline _ _ => newline

theorem Ends.exists_tail {r : Gap} {offset : Nat} {cs : List Char} (h : r.Ends offset cs) :
    ∃ g, IsGap g ∧ cs = g ++ r.tail := by
  cases r with
  | passed newline stop rest =>
    obtain ⟨g, hg, hcs, -⟩ := h
    exact ⟨g, hg, hcs⟩
  | unclosed newline stop comment =>
    obtain ⟨g, hg, hcs, -⟩ := h
    exact ⟨g, hg, hcs⟩

theorem Ends.length_tail_le {r : Gap} {offset : Nat} {cs : List Char} (h : r.Ends offset cs) :
    r.tail.length ≤ cs.length := by
  obtain ⟨g, -, hcs⟩ := h.exists_tail
  rw [hcs, List.length_append]
  omega

end Gap

/-- A line comment that no line feed ends within the gap is the end of the text. -/
theorem eq_nil_of_lastComment {body rest : List Char} (hbody : '\n' ∉ body) {newline : Bool}
    {offset : Nat} (htail : (gap newline offset ('/' :: '/' :: (body ++ rest))).tail = rest) :
    rest = [] := by
  rw [gap] at htail
  rcases ends_gap_and_comments.2.1 (offset + 2) (body ++ rest) with
    ⟨front, cs, hcs, -, hends⟩ | hlast
  · obtain ⟨g, -, hg⟩ := hends.exists_tail
    rw [htail] at hg
    -- the line feed would stand in the comment
    have hline : body = front ++ '\n' :: g := by
      rw [hg, ← List.cons_append, ← List.append_assoc] at hcs
      exact List.append_cancel_right hcs
    exact absurd (by simp [hline]) hbody
  · rw [← htail, hlast.2]
    rfl

theorem exists_trivia {g rest : List Char} (hg : IsGap g) (newline : Bool) (offset : Nat)
    (htail : (gap newline offset (g ++ rest)).tail = rest) :
    ∃ ps, Trivia.AllComplete rest ps ∧ g = Trivia.textOf ps := by
  -- a piece in front of pieces that are complete already
  have hcons : ∀ (p : Trivia) {cs : List Char}, p.IsComplete (cs ++ rest) →
      (∃ ps, Trivia.AllComplete rest ps ∧ cs = Trivia.textOf ps) →
      ∃ ps, Trivia.AllComplete rest ps ∧ p.text ++ cs = Trivia.textOf ps := by
    rintro p - hp ⟨ps, hps, rfl⟩
    exact ⟨p :: ps, ⟨hp, hps⟩, rfl⟩
  have hpass : ∀ (p : Trivia) {cs : List Char} {newline offset}, p.IsComplete (cs ++ rest) →
      (gap newline offset (p.text ++ cs ++ rest)).tail = rest →
      (gap (newline || p.breaksLine) (offset + width p.text) (cs ++ rest)).tail = rest := by
    intro p cs newline offset hp htail
    rwa [List.append_assoc, gap_text hp] at htail
  induction hg generalizing newline offset with
  | nil => exact ⟨[], trivial, rfl⟩
  | @blank c cs hc _ ih =>
    cases hline : isLineBreak c with
    | true => exact hcons (.lineBreak c) hline (ih _ _ (hpass (.lineBreak c) hline htail))
    | false =>
      rw [hline, Bool.false_or] at hc
      exact hcons (.space c) hc (ih _ _ (hpass (.space c) hc htail))
  | @lineComment body cs hbody _ ih =>
    have htext : '/' :: '/' :: body ++ '\n' :: cs = (Trivia.lineComment body).text ++ cs := by
      simp [Trivia.text]
    rw [htext] at htail ⊢
    exact hcons (.lineComment body) hbody (ih _ _ (hpass (.lineComment body) hbody htail))
  | @lastComment body hbody =>
    have hnil := eq_nil_of_lastComment hbody htail
    exact ⟨[.lastComment body], ⟨⟨hbody, hnil⟩, trivial⟩, by simp [Trivia.text]⟩
  | @blockComment body cs hbody _ ih =>
    have htext : '/' :: '*' :: body ++ '*' :: '/' :: cs
        = (Trivia.blockComment body).text ++ cs := by
      simp [Trivia.text]
    rw [htext] at htail ⊢
    exact hcons (.blockComment body) hbody (ih _ _ (hpass (.blockComment body) hbody htail))

/-- Where no trivia are passed, no line break is. -/
theorem newline_gap {newline : Bool} {offset : Nat} {cs : List Char}
    (h : (gap newline offset cs).tail = cs) : (gap newline offset cs).newline = newline := by
  have hshort : ∀ {r : Gap} {offset} {rest : List Char}, r.Ends offset rest →
      rest.length < cs.length → r.tail ≠ cs := by
    intro r offset rest hends hlt htail
    have hle := hends.length_tail_le
    rw [htail] at hle
    omega
  fun_cases gap newline offset cs with
  | case1 rest =>
    rw [gap] at h
    rcases ends_gap_and_comments.2.2 newline offset ('/' :: '*' :: rest) newline (offset + 2) rest
      with ⟨body, rest, rfl, -, hends⟩ | hopen
    · exact absurd h (hshort hends (by simp; omega))
    · rw [hopen]
      rfl
  | case2 rest =>
    rw [gap] at h
    rcases ends_gap_and_comments.2.1 (offset + 2) rest with ⟨body, rest, rfl, -, hends⟩ | hlast
    · exact absurd h (hshort hends (by simp; omega))
    · rw [hlast.2] at h
      cases h
  | case3 c rest hblock hline hc =>
    rw [gap, if_pos hc] at h
    · exact absurd h (hshort (ends_gap _ _ rest) (by simp))
    · exact hblock
    · exact hline
  | case4 c rest hblock hline hc hs =>
    rw [gap, if_neg hc, if_pos hs] at h
    · exact absurd h (hshort (ends_gap _ _ rest) (by simp))
    · exact hblock
    · exact hline
  | case5 => rfl
  | case6 => rfl

/-! ## Tiles -/

namespace Scanner

theorem tail_gap (s : Scanner) :
    (gap false s.offset s.rest).tail = s.next.1.text ++ s.next.2.rest := by
  unfold next
  cases gap false s.offset s.rest with
  | passed newline offset rest => exact (Lexeme.cuts_read rest).split.symm
  | unclosed newline offset comment => exact (List.append_nil comment).symm

theorem newlineBefore_next (s : Scanner) :
    s.next.1.newlineBefore = (gap false s.offset s.rest).newline := by
  unfold next
  cases gap false s.offset s.rest <;> rfl

/-- Complete trivia with the text of the gap tell whether a line break lies before the token. -/
theorem newlineBefore_eq_any {s : Scanner} {ps : List Trivia}
    (hps : Trivia.AllComplete (s.next.1.text ++ s.next.2.rest) ps)
    (htext : s.rest = Trivia.textOf ps ++ (s.next.1.text ++ s.next.2.rest)) :
    s.next.1.newlineBefore = ps.any Trivia.breaksLine := by
  have hgap : gap false s.offset s.rest = gap (ps.any Trivia.breaksLine)
      (s.offset + width (Trivia.textOf ps)) (s.next.1.text ++ s.next.2.rest) := by
    rw [htext, gap_textOf hps, Bool.false_or]
  have htail := s.tail_gap
  rw [hgap] at htail
  rw [newlineBefore_next, hgap, newline_gap htail]

/-- The scanner stands in the source text. -/
def IsIn (source : String) (s : Scanner) : Prop :=
  ∃ front, source.toList = front ++ s.rest ∧ s.offset = width front

theorem isIn_ofSource (source : String) : (ofSource source).IsIn source := ⟨[], rfl, rfl⟩

theorem IsIn.behind {source : String} {s s' : Scanner} (hs : s.IsIn source) {text : List Char}
    (htext : s.rest = text ++ s'.rest) (hoffset : s'.offset = s.offset + width text) :
    s'.IsIn source := by
  obtain ⟨front, hsource, hfront⟩ := hs
  exact ⟨front ++ text, by rw [hsource, htext, List.append_assoc],
    by rw [hoffset, hfront, width_append]⟩

theorem IsIn.isValid {source : String} {s : Scanner} (hs : s.IsIn source) :
    String.Pos.Raw.IsValid source ⟨s.offset⟩ := by
  obtain ⟨front, hsource, hfront⟩ := hs
  rw [hfront]
  exact isValid_width hsource

theorem IsIn.offset_add {source : String} {s : Scanner} (hs : s.IsIn source) :
    s.offset + width s.rest = source.utf8ByteSize := by
  obtain ⟨front, hsource, hfront⟩ := hs
  rw [← width_toList, hsource, width_append, hfront]

/-- Between the places `s` and `s'` lie the trivia `gap` and the token `t`, and nothing else: `t`
starts where the trivia end, and `s'` is where `t` ends. -/
structure Tile (source : String) (s : Scanner) (gap : List Trivia) (t : Token) (s' : Scanner) :
    Prop where
  next : s.next = (t, s')
  complete : Trivia.AllComplete (t.text ++ s'.rest) gap
  text : s.rest = Trivia.textOf gap ++ (t.text ++ s'.rest)
  start : t.span.start = s.offset + width (Trivia.textOf gap)
  stop : t.span.stop = t.span.start + width t.text
  offset : s'.offset = t.span.stop
  order : s.offset ≤ t.span.start ∧ t.span.start ≤ t.span.stop ∧ t.span.stop ≤ source.utf8ByteSize
  boundaries : String.Pos.Raw.IsValid source ⟨t.span.start⟩ ∧
    String.Pos.Raw.IsValid source ⟨t.span.stop⟩
  ended : t.kind = .endOfFile →
    t.span = ⟨source.utf8ByteSize, source.utf8ByteSize⟩ ∧ s'.rest = []
  newline : ∀ ps, Trivia.AllComplete (t.text ++ s'.rest) ps →
    Trivia.textOf ps = Trivia.textOf gap → (t.newlineBefore ↔ ∃ p ∈ ps, p.breaksLine)

theorem exists_tile {source : String} {s : Scanner} (hs : s.IsIn source) :
    ∃ gap, Tile source s gap s.next.1 s.next.2 := by
  have hreads := s.reads
  obtain ⟨g, hg, hrest, hstart⟩ := hreads.text
  obtain ⟨ps, hps, rfl⟩ : ∃ ps, Trivia.AllComplete (s.next.1.text ++ s.next.2.rest) ps ∧
      g = Trivia.textOf ps := by
    refine exists_trivia hg false s.offset ?_
    rw [← hrest, tail_gap]
  have htoken : IsIn source ⟨s.next.1.span.start, s.next.1.text ++ s.next.2.rest⟩ :=
    hs.behind hrest hstart
  have hbehind : s.next.2.IsIn source :=
    htoken.behind rfl (by rw [hreads.offset, hreads.stop])
  have hend : s.next.1.span.stop + width s.next.2.rest = source.utf8ByteSize := by
    rw [← hreads.offset, hbehind.offset_add]
  refine ⟨ps, rfl, hps, hrest, hstart, hreads.stop, hreads.offset, ?_, ⟨htoken.isValid, ?_⟩, ?_, ?_⟩
  · have hstop := hreads.stop
    omega
  · rw [← hreads.offset]
    exact hbehind.isValid
  · intro hkind
    obtain ⟨htext, hnil⟩ := hreads.ended hkind
    have hstop := hreads.stop
    rw [htext, width_nil, Nat.add_zero] at hstop
    rw [hnil, width_nil, Nat.add_zero] at hend
    exact ⟨congrArg₂ Span.mk (hstop.symm.trans hend) hend, hnil⟩
  · intro ps' hps' htext
    rw [newlineBefore_eq_any hps' (htext ▸ hrest), List.any_eq_true]

/-- Tiles one behind the other, from one place to another. -/
inductive Tiled (source : String) : Scanner → List (List Trivia × Token) → Scanner → Prop
  | nil {s} : Tiled source s [] s
  | cons {s s' s'' gap t tiles} : Tile source s gap t s' → Tiled source s' tiles s'' →
    Tiled source s ((gap, t) :: tiles) s''

/-- The text of tiles one behind the other. -/
def tilesText (tiles : List (List Trivia × Token)) : List Char :=
  tiles.flatMap fun tile => Trivia.textOf tile.1 ++ tile.2.text

theorem Tiled.text {source : String} {s s' : Scanner} {tiles : List (List Trivia × Token)}
    (h : Tiled source s tiles s') : s.rest = tilesText tiles ++ s'.rest := by
  induction h with
  | nil => rfl
  | cons htile _ ih =>
    rw [htile.text, ih]
    simp [tilesText]

theorem Tile.isIn {source : String} {s s' : Scanner} {gap : List Trivia} {t : Token}
    (h : Tile source s gap t s') (hs : s.IsIn source) : s'.IsIn source := by
  have htext : s.rest = (Trivia.textOf gap ++ t.text) ++ s'.rest := by
    rw [h.text, List.append_assoc]
  refine hs.behind htext ?_
  rw [h.offset, h.stop, h.start, width_append, Nat.add_assoc]

/-- A token that is not the end takes up text, or the scanner is stuck. -/
theorem Tile.length_lt {source : String} {s s' : Scanner} {gap : List Trivia} {t : Token}
    (h : Tile source s gap t s') (hgo : ¬ (t.kind == .endOfFile || t.isStuck)) :
    s'.rest.length < s.rest.length := by
  have hne : t.text ≠ [] := by
    intro hnil
    have hstop := h.stop
    rw [hnil, width_nil, Nat.add_zero] at hstop
    simp [Token.isStuck, hstop] at hgo
  have hpos := List.length_pos_of_ne_nil hne
  rw [h.text]
  simp only [List.length_append]
  omega

/-- The tokens are read up to the end or up to the first one that takes up no text. -/
def Stops (tokens : List Token) (s' : Scanner) : Prop :=
  ∃ front last, tokens = front ++ [last] ∧
    (∀ t ∈ front, t.kind ≠ .endOfFile ∧ t.isStuck = false) ∧
    (last.kind = .endOfFile ∧ s'.rest = [] ∨ last.isStuck = true)

theorem exists_tiled {source : String} (count : Nat) {s : Scanner} (hs : s.IsIn source)
    (hcount : s.rest.length < count) : ∃ tiles s', Tiled source s tiles s' ∧
      tiles.map Prod.snd = tokens count s ∧ Stops (tokens count s) s' := by
  induction count generalizing s with
  | zero => omega
  | succ count ih =>
    obtain ⟨gap, htile⟩ := exists_tile hs
    simp only [tokens]
    split
    · rename_i hstop
      refine ⟨[(gap, s.next.1)], s.next.2, .cons htile .nil, rfl, [], s.next.1, rfl, by simp, ?_⟩
      rcases Bool.or_eq_true_iff.1 hstop with hend | hstuck
      · have hend : s.next.1.kind = .endOfFile := by simpa using hend
        exact .inl ⟨hend, (htile.ended hend).2⟩
      · exact .inr hstuck
    · rename_i hgo
      have hlt := htile.length_lt hgo
      obtain ⟨tiles, s', htiled, hmap, front, last, hlist, hfront, hlast⟩ :=
        ih (htile.isIn hs) (by omega)
      refine ⟨(gap, s.next.1) :: tiles, s', .cons htile htiled, congrArg _ hmap,
        s.next.1 :: front, last, congrArg _ hlist, ?_, hlast⟩
      have hfirst : s.next.1.kind ≠ .endOfFile ∧ s.next.1.isStuck = false := by simpa using hgo
      exact List.forall_mem_cons.2 ⟨hfirst, hfront⟩

end Scanner

/-- Every source text is cut into tiles by its tokens. Together they give back the text if the last
token is the end of the file, and otherwise the text up to the last token, which takes up none. -/
theorem tokenize_tiles (source : String) :
    ∃ tiles s', Scanner.Tiled source (Scanner.ofSource source) tiles s' ∧
      tiles.map Prod.snd = tokenize source ∧ Scanner.Stops (tokenize source) s' ∧
      source.toList = Scanner.tilesText tiles ++ s'.rest := by
  have hcount : (Scanner.ofSource source).rest.length < source.utf8ByteSize + 1 := by
    have hlength := length_le_width source.toList
    rw [width_toList] at hlength
    exact Nat.lt_succ_of_le hlength
  obtain ⟨tiles, s', htiled, hmap, hstops⟩ :=
    Scanner.exists_tiled _ (Scanner.isIn_ofSource source) hcount
  exact ⟨tiles, s', htiled, hmap, hstops, htiled.text⟩

/-- An ideographic space is blank but no white space of the language. The scanner is stuck at it,
so the tokens of a text that has one do not cover the text. -/
theorem not_covered_wideSpace : ¬ ∃ tiles s',
    Scanner.Tiled "\u3000" (Scanner.ofSource "\u3000") tiles s' ∧
      tiles.map Prod.snd = tokenize "\u3000" ∧ Scanner.tilesText tiles = "\u3000".toList := by
  rintro ⟨tiles, s', htiled, hmap, htext⟩
  have htokens : tokenize "\u3000" = [⟨.identifier, [], ⟨0, 0⟩, false, none⟩] := by decide +kernel
  rw [htokens] at hmap
  cases htiled with
  | nil => cases hmap
  | cons htile htiled =>
    obtain ⟨rfl, hnil⟩ := List.cons.inj hmap
    obtain rfl := List.map_eq_nil_iff.1 hnil
    -- the token starts at the start of the text, so there is no text before it
    have hnil := width_eq_zero.1 ((Nat.zero_add _).symm.trans htile.start.symm)
    rw [Scanner.tilesText, List.flatMap_singleton, hnil] at htext
    cases htext

end Ambient
