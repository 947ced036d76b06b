import Ambient.Token.Buffer
import Mathlib.Data.List.Infix
import Mathlib.Data.Nat.Find
/-!
# The token stream

The scanner cuts a source text into gaps and tokens and loses nothing: the texts of the tokens and
the gaps between them, put together again, are the source text (`Scanner.reads`,
`Scanner.exists_text`). Offsets are widths of what lies before. A token that takes up no text is
read again and again (`Scanner.EndsAt.text_ne_nil`), so a stream that reaches the end of the text
has none.
-/

namespace Ambient

/-! ## Gaps -/

/-- White space, line breaks and comments. A line comment without a line feed is the end of the
text. -/
inductive IsGap : List Char → Prop
  | nil : IsGap []
  | blank {c cs} : isLineBreak c || isSpace c → IsGap cs → IsGap (c :: cs)
  | lineComment {body cs} : '\n' ∉ body → IsGap cs → IsGap ('/' :: '/' :: body ++ '\n' :: cs)
  | lastComment {body} : '\n' ∉ body → IsGap ('/' :: '/' :: body)
  | blockComment {body cs} : ¬ ['*', '/'] <:+: body → IsGap cs →
    IsGap ('/' :: '*' :: body ++ '*' :: '/' :: cs)

/-- A text with no gap in front. -/
def IsSolid (cs : List Char) : Prop :=
  ∀ newline offset, gap newline offset cs = .passed newline offset cs

theorem isSolid_nil : IsSolid [] := fun _ _ => by rw [gap]

namespace Gap

/-- From `offset` on, where the text is `cs`, there is a gap, and it ends at a text with no gap in
front or at a comment that is never closed. -/
def Ends (offset : Nat) (cs : List Char) : Gap → Prop
  | .passed _ stop rest => ∃ g, IsGap g ∧ cs = g ++ rest ∧ stop = offset + width g ∧ IsSolid rest
  | .unclosed _ stop comment =>
    ∃ g, IsGap g ∧ cs = g ++ comment ∧ stop = offset + width g ∧ comment ≠ []

theorem Ends.prepend {r : Gap} {offset : Nat} {cs : List Char} (front : List Char)
    (h : r.Ends (offset + width front) cs) (hgap : ∀ g, IsGap g → IsGap (front ++ g)) :
    r.Ends offset (front ++ cs) := by
  cases r with
  | passed newline stop rest =>
    obtain ⟨g, hg, rfl, rfl, hsolid⟩ := h
    exact ⟨front ++ g, hgap g hg, by simp, by simp; omega, hsolid⟩
  | unclosed newline stop comment =>
    obtain ⟨g, hg, rfl, rfl, hne⟩ := h
    exact ⟨front ++ g, hgap g hg, by simp, by simp; omega, hne⟩

/-- Inside a line comment: the line ends and the gap goes on, or the text ends. -/
def EndsLine (offset : Nat) (cs : List Char) (r : Gap) : Prop :=
  (∃ body rest, cs = body ++ '\n' :: rest ∧ '\n' ∉ body ∧ r.Ends (offset + width body + 1) rest)
    ∨ '\n' ∉ cs ∧ r = .passed true (offset + width cs) []

theorem EndsLine.cons {r : Gap} {offset : Nat} {c : Char} {cs : List Char} (hc : c ≠ '\n')
    (h : r.EndsLine (offset + c.utf8Size) cs) : r.EndsLine offset (c :: cs) := by
  rcases h with ⟨body, rest, rfl, hbody, h⟩ | ⟨hcs, rfl⟩
  · refine .inl ⟨c :: body, rest, rfl, by simp [hbody, hc.symm], ?_⟩
    simpa [Nat.add_assoc] using h
  · refine .inr ⟨by simp [hcs, hc.symm], ?_⟩
    simp [Nat.add_assoc]

theorem EndsLine.comment {r : Gap} {offset : Nat} {cs : List Char}
    (h : r.EndsLine (offset + 2) cs) : r.Ends offset ('/' :: '/' :: cs) := by
  rcases h with ⟨body, rest, rfl, hbody, h⟩ | ⟨hcs, rfl⟩
  · have hwidth : offset + 2 + width body + 1
        = offset + width ('/' :: '/' :: (body ++ ['\n'])) := by
      simp [Char.utf8Size]
      omega
    rw [hwidth] at h
    simpa using h.prepend _ fun g hg => by simpa using IsGap.lineComment hbody hg
  · exact ⟨'/' :: '/' :: cs, .lastComment hcs, by simp, by simp [Char.utf8Size]; omega, isSolid_nil⟩

/-- Inside a block comment that opened at `start`: it is closed and the gap goes on, or it never
is. -/
def EndsBlock (before : Bool) (start : Nat) (comment : List Char) (offset : Nat) (cs : List Char)
    (r : Gap) : Prop :=
  (∃ body rest, cs = body ++ '*' :: '/' :: rest ∧ ¬ ['*', '/'] <:+: body ∧
      r.Ends (offset + width body + 2) rest)
    ∨ r = .unclosed before start comment

theorem EndsBlock.cons {r : Gap} {before : Bool} {start : Nat} {comment : List Char} {offset : Nat}
    {c : Char} {cs : List Char} (hc : ∀ rest, c = '*' → cs = '/' :: rest → False)
    (h : r.EndsBlock before start comment (offset + c.utf8Size) cs) :
    r.EndsBlock before start comment offset (c :: cs) := by
  rcases h with ⟨body, rest, rfl, hbody, h⟩ | rfl
  · refine .inl ⟨c :: body, rest, rfl, fun hinfix => ?_, by simpa [Nat.add_assoc] using h⟩
    rcases List.infix_cons_iff.1 hinfix with ⟨tail, htail⟩ | hinfix
    · -- the comment would have been closed at `c`
      simp only [List.cons_append, List.nil_append, List.cons.injEq] at htail
      obtain ⟨rfl, rfl⟩ := htail
      exact hc _ rfl rfl
    · exact hbody hinfix
  · exact .inr rfl

theorem EndsBlock.comment {r : Gap} {newline : Bool} {offset : Nat} {cs : List Char}
    (h : r.EndsBlock newline offset ('/' :: '*' :: cs) (offset + 2) cs) :
    r.Ends offset ('/' :: '*' :: cs) := by
  rcases h with ⟨body, rest, rfl, hbody, h⟩ | rfl
  · have hwidth : offset + 2 + width body + 2
        = offset + width ('/' :: '*' :: (body ++ ['*', '/'])) := by
      simp [Char.utf8Size]
      omega
    rw [hwidth] at h
    simpa using h.prepend _ fun g hg => by simpa using IsGap.blockComment hbody hg
  · exact ⟨[], .nil, rfl, rfl, by simp⟩

end Gap

-- The induction follows the three functions that pass a gap together.
theorem ends_gap_and_comments :
    (∀ newline offset cs, (gap newline offset cs).Ends offset cs) ∧
    (∀ offset cs, (gapLine offset cs).EndsLine offset cs) ∧
    (∀ before start comment newline offset cs,
      (gapBlock before start comment newline offset cs).EndsBlock before start comment offset
        cs) := by
  apply gap.mutual_induct
  -- a gap: a block comment, a line comment, a line break, a space, none, the end of the text
  case case1 =>
    intro newline offset rest h
    rw [gap]
    exact h.comment
  case case2 =>
    intro newline offset rest h
    rw [gap]
    exact h.comment
  case case3 =>
    intro newline offset c rest hblock hline hc h
    rw [gap, if_pos hc]
    · exact h.prepend [c] fun g hg => .blank (by simp [hc]) hg
    · exact hblock
    · exact hline
  case case4 =>
    intro newline offset c rest hblock hline hc hs h
    rw [gap, if_neg hc, if_pos hs]
    · exact h.prepend [c] fun g hg => .blank (by simp [hs]) hg
    · exact hblock
    · exact hline
  case case5 =>
    intro newline offset c rest hblock hline hc hs
    have hsolid : IsSolid (c :: rest) := by
      intro newline offset
      rw [gap, if_neg hc, if_neg hs]
      · exact hblock
      · exact hline
    rw [hsolid]
    exact ⟨[], .nil, rfl, rfl, hsolid⟩
  case case6 =>
    intro newline offset
    rw [gap]
    exact ⟨[], .nil, rfl, rfl, isSolid_nil⟩
  -- a line comment: its line feed, another character, the end of the text
  case case7 =>
    intro offset c rest hc h
    rw [gapLine, if_pos hc]
    obtain rfl : c = '\n' := by simpa using hc
    exact .inl ⟨[], rest, rfl, by simp, h⟩
  case case8 =>
    intro offset c rest hc h
    rw [gapLine, if_neg hc]
    exact h.cons (by simpa using hc)
  case case9 =>
    intro offset
    rw [gapLine]
    exact .inr ⟨by simp, rfl⟩
  -- a block comment: where it is closed, another character, the end of the text
  case case10 =>
    intro before start comment newline offset rest h
    rw [gapBlock]
    exact .inl ⟨[], rest, rfl, by simp, h⟩
  case case11 =>
    intro before start comment newline offset c rest hc h
    rw [gapBlock]
    · exact h.cons hc
    · exact hc
  case case12 =>
    intro before start comment newline offset
    rw [gapBlock]
    exact .inr rfl

theorem ends_gap (newline : Bool) (offset : Nat) (cs : List Char) :
    (gap newline offset cs).Ends offset cs := ends_gap_and_comments.1 newline offset cs

/-! ## Lexemes -/

namespace Lexeme

/-- The lexeme is a front part of the text. It is the end only where no text is left, and only an
invalid one has a fault. -/
structure Cuts (cs : List Char) (l : Lexeme) : Prop where
  split : l.text ++ l.rest = cs
  ended : l.kind = .endOfFile → cs = []
  faultless : l.kind ≠ .invalid → l.fault = none

theorem cuts_broken {fault : Fault} {text rest cs : List Char} (h : text ++ rest = cs) :
    (broken fault text rest).Cuts cs :=
  ⟨h, fun h => (nomatch h), fun h => absurd rfl h⟩

theorem ofWord?_ne_endOfFile {word : List Char} {kind : Kind} (h : Kind.ofWord? word = some kind) :
    kind ≠ .endOfFile := by
  have hall : ∀ k ∈ Kind.keywords, k.1 ≠ .endOfFile := by decide
  obtain ⟨entry, hentry, rfl⟩ := Option.map_eq_some_iff.1 h
  exact hall entry (List.mem_of_find?_eq_some hentry)

theorem cuts_word (cs : List Char) : (word cs).Cuts cs := by
  unfold word
  split
  · rename_i kind hkind
    exact ⟨List.takeWhile_append_dropWhile, fun h => absurd h (ofWord?_ne_endOfFile hkind),
      fun _ => rfl⟩
  · exact ⟨List.takeWhile_append_dropWhile, fun h => (nomatch h), fun _ => rfl⟩

theorem cuts_ofNumber {wellFormed : Bool} {text rest cs : List Char} (h : text ++ rest = cs) :
    (ofNumber wellFormed text rest).Cuts cs := by
  cases wellFormed
  · exact cuts_broken h
  · exact ⟨h, fun h => (nomatch h), fun _ => rfl⟩

theorem fraction_append (cs : List Char) : (fraction cs).1 ++ (fraction cs).2 = cs := by
  unfold fraction
  split
  · simp
  · rfl

theorem sign_append (cs : List Char) : (sign cs).1 ++ (sign cs).2 = cs := by
  unfold sign
  split
  · split <;> rfl
  · rfl

theorem exponent_append (cs : List Char) : (exponent cs).2.1 ++ (exponent cs).2.2 = cs := by
  unfold exponent
  split
  · split
    · simp [sign_append]
    · rfl
  · rfl

theorem cuts_decimal (cs : List Char) : (decimal cs).Cuts cs := by
  have hpower := exponent_append (fraction (cs.dropWhile Char.isDigit)).2
  have hpart := fraction_append (cs.dropWhile Char.isDigit)
  apply cuts_ofNumber
  calc cs.takeWhile Char.isDigit ++ (fraction (cs.dropWhile Char.isDigit)).1
        ++ (exponent (fraction (cs.dropWhile Char.isDigit)).2).2.1
        ++ (exponent (fraction (cs.dropWhile Char.isDigit)).2).2.2
      = cs.takeWhile Char.isDigit ++ cs.dropWhile Char.isDigit := by
        rw [List.append_assoc, List.append_assoc, hpower, hpart]
    _ = cs := List.takeWhile_append_dropWhile

theorem cuts_number (cs : List Char) : (number cs).Cuts cs := by
  unfold number
  split
  · split
    · exact cuts_ofNumber (by simp)
    · exact cuts_decimal _
  · exact cuts_decimal _

theorem stringTail_append (quote : Char) (cs : List Char) :
    (stringTail quote cs).2.1 ++ (stringTail quote cs).2.2 = cs := by
  fun_induction stringTail quote cs <;> simp_all

theorem cuts_string (quote : Char) (cs : List Char) : (string quote cs).Cuts (quote :: cs) := by
  have happend := stringTail_append quote cs
  unfold string
  split
  all_goals
    rename_i hend
    rw [hend] at happend
  · exact ⟨congrArg _ happend, fun h => (nomatch h), fun _ => rfl⟩
  · exact cuts_broken (congrArg _ happend)
  · exact cuts_broken (congrArg _ happend)

theorem cuts_read (cs : List Char) : (read cs).Cuts cs := by
  have hsigns : ∀ s ∈ signs, s.2 ≠ .endOfFile := by decide
  unfold read
  split
  · exact ⟨rfl, fun _ => rfl, fun _ => rfl⟩
  · rename_i c cs
    split
    · exact cuts_word _
    · split
      · exact cuts_number _
      · split
        · exact cuts_string c cs
        · split
          · rename_i text kind hfind
            have hfront : text <+: c :: cs := by simpa using List.find?_some hfind
            exact ⟨List.prefix_iff_eq_append.1 hfront,
              fun h => absurd h (hsigns _ (List.mem_of_find?_eq_some hfind)), fun _ => rfl⟩
          · exact cuts_broken rfl

end Lexeme

/-! ## One token -/

theorem width_eq_zero {cs : List Char} : width cs = 0 ↔ cs = [] := by
  cases cs with
  | nil => simp
  | cons c cs => simp [Nat.ne_of_gt c.utf8Size_pos]

theorem length_le_width (cs : List Char) : cs.length ≤ width cs := by
  induction cs with
  | nil => simp
  | cons c cs ih =>
    have hc := c.utf8Size_pos
    simp only [List.length_cons, width_cons]
    omega

theorem utf8ByteSize_ofList (cs : List Char) : (String.ofList cs).utf8ByteSize = width cs := by
  induction cs with
  | nil => rfl
  | cons c cs ih =>
    have hcons : String.ofList (c :: cs) = String.singleton c ++ String.ofList cs := by simp
    rw [hcons, String.utf8ByteSize_append, ih, width_cons, String.utf8ByteSize_singleton]

theorem width_toList (s : String) : width s.toList = s.utf8ByteSize := by
  rw [← utf8ByteSize_ofList, String.ofList_toList]

theorem isValid_width {source : String} {front rest : List Char}
    (h : source.toList = front ++ rest) : String.Pos.Raw.IsValid source ⟨width front⟩ := by
  refine String.Pos.Raw.isValid_iff_exists_append.2
    ⟨String.ofList front, String.ofList rest, ?_, ?_⟩
  · rw [← String.ofList_append, ← h, String.ofList_toList]
  · exact congrArg String.Pos.Raw.mk (utf8ByteSize_ofList front).symm

namespace Scanner

/-- Between the scanners `s` and `s'` lie a gap and the token `t`, and nothing else. Only at the end
of the text is the token `endOfFile`, and a token without text is met again behind itself. -/
structure Reads (s : Scanner) (t : Token) (s' : Scanner) : Prop where
  text : ∃ g, IsGap g ∧ s.rest = g ++ (t.text ++ s'.rest) ∧ t.span.start = s.offset + width g
  stop : t.span.stop = t.span.start + width t.text
  offset : s'.offset = t.span.stop
  ended : t.kind = .endOfFile → t.text = [] ∧ s'.rest = []
  faultless : t.kind ≠ .invalid → t.fault = none
  again : t.kind ≠ .endOfFile → t.text = [] →
    s'.next.1.kind = t.kind ∧ s'.next.1.text = [] ∧ s'.next.2 = s'

theorem next_eq_place {s : Scanner} (h : IsSolid s.rest) :
    s.next = place false s.offset (Lexeme.read s.rest) := by
  rw [next, h]

theorem reads (s : Scanner) : s.Reads s.next.1 s.next.2 := by
  have hgap := ends_gap false s.offset s.rest
  unfold next
  generalize gap false s.offset s.rest = r at hgap
  cases r with
  | unclosed newline offset comment =>
    obtain ⟨g, hg, hrest, rfl, hne⟩ := hgap
    exact ⟨⟨g, hg, by simpa [place, Lexeme.broken] using hrest, rfl⟩, rfl, rfl,
      fun h => (nomatch h), fun h => absurd rfl h, fun _ h => absurd h hne⟩
  | passed newline offset rest =>
    obtain ⟨g, hg, hrest, rfl, hsolid⟩ := hgap
    have hcuts := Lexeme.cuts_read rest
    refine ⟨⟨g, hg, hrest.trans (congrArg _ hcuts.split.symm), rfl⟩, rfl, rfl, fun hend => ?_,
      hcuts.faultless, fun _ hnil => ?_⟩
    · obtain rfl := hcuts.ended hend
      exact ⟨rfl, rfl⟩
    · -- nothing was read, so the scanner behind stands where this one stopped
      have hagain : (place newline (s.offset + width g) (Lexeme.read rest)).2
          = ⟨s.offset + width g, rest⟩ := by
        have hsplit := hcuts.split
        replace hnil : (Lexeme.read rest).text = [] := hnil
        simp only [hnil, List.nil_append] at hsplit
        simp only [place, hnil, hsplit, width_nil, Nat.add_zero]
      rw [hagain, next_eq_place hsolid]
      exact ⟨rfl, hnil, hagain⟩

/-! ## The stream -/

/-- The place behind the first `n` tokens. -/
def after (s : Scanner) : Nat → Scanner
  | 0 => s
  | n + 1 => (s.after n).next.2

/-- The token that `n` tokens come before. -/
def token (s : Scanner) (n : Nat) : Token := (s.after n).next.1

theorem after_succ (s : Scanner) (n : Nat) : s.after (n + 1) = s.next.2.after n := by
  induction n with
  | zero => rfl
  | succ n ih =>
    rw [after, ih]
    rfl

theorem token_succ (s : Scanner) (n : Nat) : s.token (n + 1) = s.next.2.token n := by
  rw [token, after_succ, token]

theorem reads_token (s : Scanner) (n : Nat) : (s.after n).Reads (s.token n) (s.after (n + 1)) :=
  (s.after n).reads

/-- The text between two places of the stream. -/
theorem exists_text (s : Scanner) {i j : Nat} (h : i ≤ j) :
    ∃ text, (s.after i).rest = text ++ (s.after j).rest ∧
      (s.after j).offset = (s.after i).offset + width text := by
  induction j, h using Nat.le_induction with
  | base => exact ⟨[], rfl, rfl⟩
  | succ j _ ih =>
    obtain ⟨text, htext, hoffset⟩ := ih
    have hreads := s.reads_token j
    obtain ⟨g, -, hrest, hstart⟩ := hreads.text
    refine ⟨text ++ (g ++ (s.token j).text), by rw [htext, hrest]; simp, ?_⟩
    rw [hreads.offset, hreads.stop, hstart, hoffset]
    simp only [width_append]
    omega

theorem offset_after_mono (s : Scanner) {i j : Nat} (h : i ≤ j) :
    (s.after i).offset ≤ (s.after j).offset := by
  obtain ⟨text, -, hoffset⟩ := s.exists_text h
  omega

theorem start_le_stop (s : Scanner) (n : Nat) : (s.token n).span.start ≤ (s.token n).span.stop := by
  have hstop := (s.reads_token n).stop
  omega

theorem offset_le_start (s : Scanner) (n : Nat) : (s.after n).offset ≤ (s.token n).span.start := by
  obtain ⟨g, -, -, hstart⟩ := (s.reads_token n).text
  omega

theorem start_mono (s : Scanner) {i j : Nat} (hij : i ≤ j) :
    (s.token i).span.start ≤ (s.token j).span.start := by
  rcases Nat.eq_or_lt_of_le hij with rfl | hlt
  · exact le_rfl
  · have hoffset := (s.reads_token i).offset
    have hstop := s.start_le_stop i
    have hmono := s.offset_after_mono (show i + 1 ≤ j from hlt)
    have hstart := s.offset_le_start j
    omega

/-! ## Reaching the end -/

/-- The stream ends at its `n`-th token and not before. -/
structure EndsAt (s : Scanner) (n : Nat) : Prop where
  ended : (s.token n).kind = .endOfFile
  before : ∀ k < n, (s.token k).kind ≠ .endOfFile

theorem exists_endsAt {s : Scanner} {n : Nat} (h : (s.token n).kind = .endOfFile) :
    ∃ m, s.EndsAt m := by
  classical
  have hex : ∃ m, (s.token m).kind = .endOfFile := ⟨n, h⟩
  exact ⟨Nat.find hex, Nat.find_spec hex, fun k hk => Nat.find_min hex hk⟩

/-- Behind a token without text there is only that token. -/
theorem token_eq_again {s : Scanner} {k : Nat} (hkind : (s.token k).kind ≠ .endOfFile)
    (htext : (s.token k).text = []) (d : Nat) :
    (s.token (k + d)).kind ≠ .endOfFile ∧ (s.token (k + d)).text = [] := by
  induction d with
  | zero => exact ⟨hkind, htext⟩
  | succ d ih =>
    obtain ⟨hsame, hnil, -⟩ := (s.reads_token (k + d)).again ih.1 ih.2
    exact ⟨hsame ▸ ih.1, hnil⟩

/-- There are no more tokens with text than characters. -/
theorem add_length_le {s : Scanner} {n : Nat} (h : ∀ k < n, (s.token k).text ≠ []) :
    n + (s.after n).rest.length ≤ s.rest.length := by
  induction n with
  | zero => simp [after]
  | succ n ih =>
    have ih := ih fun k hk => h k (by omega)
    obtain ⟨g, -, hrest, -⟩ := (s.reads_token n).text
    have hpos := List.length_pos_of_ne_nil (h n (by omega))
    rw [hrest] at ih
    simp only [List.length_append] at ih
    omega

namespace EndsAt

variable {s : Scanner} {n : Nat}

theorem text_ne_nil (h : s.EndsAt n) {k : Nat} (hk : k < n) : (s.token k).text ≠ [] := by
  intro hnil
  have hagain := (token_eq_again (h.before k hk) hnil (n - k)).1
  rw [Nat.add_sub_cancel' (Nat.le_of_lt hk)] at hagain
  exact hagain h.ended

theorem start_lt_stop (h : s.EndsAt n) {k : Nat} (hk : k < n) :
    (s.token k).span.start < (s.token k).span.stop := by
  have hstop := (s.reads_token k).stop
  have hne : width (s.token k).text ≠ 0 := fun h0 => h.text_ne_nil hk (width_eq_zero.1 h0)
  omega

theorem isGap_rest (h : s.EndsAt n) : IsGap (s.after n).rest := by
  have hreads := s.reads_token n
  obtain ⟨g, hg, hrest, -⟩ := hreads.text
  obtain ⟨htext, hnil⟩ := hreads.ended h.ended
  rw [hrest, htext, hnil]
  simpa using hg

theorem le_length (h : s.EndsAt n) : n ≤ s.rest.length := by
  have := add_length_le fun k => h.text_ne_nil (k := k)
  omega

end EndsAt

/-! ## The list of tokens -/

theorem getElem?_tokens (count : Nat) (s : Scanner) {k : Nat} (hk : k < (tokens count s).length) :
    (tokens count s)[k]? = some (s.token k) := by
  induction count generalizing s k with
  | zero => simp [tokens] at hk
  | succ count ih =>
    simp only [tokens] at hk ⊢
    split at hk
    · rename_i hstop
      obtain rfl : k = 0 := by simpa using hk
      rw [if_pos hstop]
      rfl
    · rename_i hgo
      rw [if_neg hgo]
      cases k with
      | zero => rfl
      | succ k =>
        rw [List.getElem?_cons_succ, ih _ (by simpa using hk), token_succ]

theorem EndsAt.tail {s : Scanner} {n : Nat} (h : s.EndsAt (n + 1)) : s.next.2.EndsAt n where
  ended := by simpa only [token_succ] using h.ended
  before k hk := by simpa only [token_succ] using h.before (k + 1) (by omega)

theorem EndsAt.length_tokens {s : Scanner} {n count : Nat} (h : s.EndsAt n) (hcount : n < count) :
    (tokens count s).length = n + 1 := by
  induction count generalizing s n with
  | zero => omega
  | succ count ih =>
    simp only [tokens]
    cases n with
    | zero =>
      have hend : s.next.1.kind = .endOfFile := h.ended
      simp [hend]
    | succ n =>
      have hkind : s.next.1.kind ≠ .endOfFile := h.before 0 (by omega)
      have hlt : s.next.1.span.start < s.next.1.span.stop := h.start_lt_stop (Nat.succ_pos n)
      have hgo : ¬ (s.next.1.kind == .endOfFile || s.next.1.isStuck) := by
        simp [Token.isStuck, hkind]
        omega
      rw [if_neg hgo, List.length_cons, ih h.tail (by omega)]

end Scanner

/-- The tokens of a stream that ends, as a list. -/
theorem tokenize_eq {source : String} {n : Nat} (h : (Scanner.ofSource source).EndsAt n) :
    tokenize source = (List.range n).map (Scanner.ofSource source).token
      ++ [(Scanner.ofSource source).token n] := by
  have hcount : n < source.utf8ByteSize + 1 := by
    have hlength := h.le_length
    have hwidth := length_le_width source.toList
    rw [width_toList] at hwidth
    exact Nat.lt_succ_of_le (hlength.trans hwidth)
  have hlength : (tokenize source).length = n + 1 := h.length_tokens hcount
  have hrange : (List.range n).map (Scanner.ofSource source).token
      ++ [(Scanner.ofSource source).token n]
      = (List.range (n + 1)).map (Scanner.ofSource source).token := by
    rw [List.range_succ, List.map_append, List.map_singleton]
  rw [hrange]
  refine List.ext_getElem? fun k => ?_
  by_cases hk : k < n + 1
  · rw [tokenize, Scanner.getElem?_tokens _ _ (by rw [← tokenize, hlength]; exact hk)]
    simp [hk]
  · rw [List.getElem?_eq_none (by omega), List.getElem?_eq_none (by simp; omega)]

end Ambient
