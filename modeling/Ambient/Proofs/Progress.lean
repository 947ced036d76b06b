import Ambient.Proofs.Halting
import Ambient.Proofs.Identifier
import Ambient.Proofs.Tiling
/-!
# Where the scanner goes on

One step of the scanner passes all the trivia in front of it and then reads a token or finds a
block comment that is never closed (`Scanner.next_of_skips`). A token takes up text and moves the
scanner on, with one exception: at a character that is blank but no white space of the language the
scanner answers an empty identifier and stays where it is for good (`token_advances_or_stalls`).
-/

namespace Ambient

/-! ## The end of the trivia -/

/-- No complete piece of trivia stands in front of the text. -/
def NoTrivia (cs : List Char) : Prop :=
  ∀ (p : Trivia) (rest : List Char), cs = p.text ++ rest → ¬ p.IsComplete rest

/-- The text starts with a block comment that is never closed. -/
def OpensComment (cs : List Char) : Prop :=
  ∃ body, cs = '/' :: '*' :: body ∧ ¬ ['*', '/'] <:+: body

theorem noTrivia_of_tail_gap {newline : Bool} {offset : Nat} {cs : List Char}
    (h : (gap newline offset cs).tail = cs) : NoTrivia cs := by
  rintro p rest rfl hp
  rw [gap_text hp] at h
  -- what is left behind the piece is shorter than the text
  have hle := (ends_gap (newline || p.breaksLine) (offset + width p.text) rest).length_tail_le
  have hpos : 0 < p.text.length := by cases p <;> simp [Trivia.text]
  rw [h, List.length_append] at hle
  omega

theorem NoTrivia.not_blank {c : Char} {cs : List Char} (h : NoTrivia (c :: cs)) :
    ¬ (isSpace c || isLineBreak c) := by
  intro hc
  rcases Bool.or_eq_true_iff.1 hc with hspace | hline
  · exact h (.space c) cs rfl hspace
  · exact h (.lineBreak c) cs rfl hline

/-- A text that has the closing mark of a comment in it has a first one. -/
theorem exists_first_close {cs : List Char} (h : ['*', '/'] <:+: cs) :
    ∃ body rest, cs = body ++ '*' :: '/' :: rest ∧ ¬ ['*', '/'] <:+: body := by
  induction cs with
  | nil => simp at h
  | cons c cs ih =>
    by_cases hfirst : ['*', '/'] <+: c :: cs
    · obtain ⟨rest, hrest⟩ := hfirst
      exact ⟨[], rest, hrest.symm, by simp⟩
    · obtain ⟨body, rest, rfl, hbody⟩ := ih ((List.infix_cons_iff.1 h).resolve_left hfirst)
      refine ⟨c :: body, rest, rfl, fun hinfix => ?_⟩
      rcases List.infix_cons_iff.1 hinfix with hfront | hinfix
      · exact hfirst (hfront.trans ⟨'*' :: '/' :: rest, rfl⟩)
      · exact hbody hinfix

theorem NoTrivia.opensComment {body : List Char} (h : NoTrivia ('/' :: '*' :: body)) :
    OpensComment ('/' :: '*' :: body) := by
  refine ⟨body, rfl, fun hclose => ?_⟩
  obtain ⟨body, rest, rfl, hbody⟩ := exists_first_close hclose
  exact h (.blockComment body) rest (by simp [Trivia.text]) hbody

/-- Behind the trivia the gap ends, with or without a comment that is never closed. -/
theorem gap_of_noTrivia {cs : List Char} (h : NoTrivia cs) (newline : Bool) (offset : Nat) :
    OpensComment cs ∧ gap newline offset cs = .unclosed newline offset cs ∨
      ¬ OpensComment cs ∧ gap newline offset cs = .passed newline offset cs := by
  fun_cases gap newline offset cs with
  | case1 rest =>
    refine .inl ⟨h.opensComment, ?_⟩
    rcases ends_gap_and_comments.2.2 newline offset ('/' :: '*' :: rest) newline (offset + 2) rest
      with ⟨body, rest, rfl, hbody, -⟩ | hopen
    · exact absurd hbody (h (.blockComment body) rest (by simp [Trivia.text]))
    · exact hopen
  | case2 rest =>
    exfalso
    rcases ends_gap_and_comments.2.1 (offset + 2) rest with ⟨body, rest, rfl, hbody, -⟩ | hlast
    · exact h (.lineComment body) rest (by simp [Trivia.text]) hbody
    · exact h (.lastComment rest) [] (by simp [Trivia.text]) ⟨hlast.1, rfl⟩
  | case3 c rest hblock hline hc => exact absurd (by simp [hc]) h.not_blank
  | case4 c rest hblock hline hc hs => exact absurd (by simp [hs]) h.not_blank
  | case5 c rest hblock hline hc hs =>
    refine .inr ⟨?_, rfl⟩
    rintro ⟨body, hbody, -⟩
    cases hbody
    exact hblock body rfl rfl
  | case6 =>
    refine .inr ⟨?_, rfl⟩
    rintro ⟨body, hbody, -⟩
    cases hbody

namespace Scanner

/-- From the place `s` on come the trivia, all that there are, and then the text `rest`. -/
structure Skips (s : Scanner) (trivia : List Trivia) (rest : List Char) : Prop where
  text : s.rest = Trivia.textOf trivia ++ rest
  complete : Trivia.AllComplete rest trivia
  noMore : NoTrivia rest

theorem exists_skips (s : Scanner) : ∃ trivia rest, s.Skips trivia rest := by
  obtain ⟨g, hg, hrest, -⟩ := s.reads.text
  have htail := s.tail_gap
  rw [hrest] at htail
  obtain ⟨trivia, hcomplete, rfl⟩ := exists_trivia hg false s.offset htail
  rw [gap_textOf hcomplete] at htail
  exact ⟨trivia, _, hrest, hcomplete, noTrivia_of_tail_gap htail⟩

/-- What one step of the scanner does. -/
theorem next_of_skips {s : Scanner} {trivia : List Trivia} {rest : List Char}
    (h : s.Skips trivia rest) :
    ∃ newline, s.next = place newline (s.offset + width (Trivia.textOf trivia)) (Lexeme.read rest) ∧
          ¬ OpensComment rest ∨
        s.next = place newline (s.offset + width (Trivia.textOf trivia))
          (.broken .unterminatedComment rest []) ∧ OpensComment rest := by
  refine ⟨trivia.any Trivia.breaksLine, ?_⟩
  rw [next, h.text, gap_textOf h.complete, Bool.false_or]
  rcases gap_of_noTrivia h.noMore (trivia.any Trivia.breaksLine)
    (s.offset + width (Trivia.textOf trivia)) with ⟨hopen, hgap⟩ | ⟨hclosed, hgap⟩
  · rw [hgap]
    exact .inr ⟨rfl, hopen⟩
  · rw [hgap]
    exact .inl ⟨rfl, hclosed⟩

theorem start_of_skips {s : Scanner} {trivia : List Trivia} {rest : List Char}
    (h : s.Skips trivia rest) :
    s.next.1.span.start = s.offset + width (Trivia.textOf trivia) := by
  obtain ⟨newline, ⟨hnext, -⟩ | ⟨hnext, -⟩⟩ := next_of_skips h <;>
    exact congrArg (·.1.span.start) hnext

end Scanner

/-! ## Characters where nothing is read -/

/-- A character beyond ASCII that is blank but is not passed between tokens. -/
def isForeignBlank (c : Char) : Bool :=
  128 ≤ c.toNat && isBlank c && !(isSpace c || isLineBreak c)

example : isForeignBlank '\u3000' ∧ isForeignBlank '\u0085' ∧ ¬ isForeignBlank '\u00a0' := by
  decide

theorem isPlainWordChar_eq_false {c : Char} (h : 128 ≤ c.toNat) : isPlainWordChar c = false := by
  by_contra hplain
  have hascii : c.toNat < 128 := by
    simp only [isPlainWordChar, Bool.not_eq_false, Bool.or_eq_true, beq_iff_eq] at hplain
    rcases hplain with (hletter | rfl) | rfl
    · exact Name.toNat_lt_of_isIdentChar (by simp [Name.isIdentChar, hletter])
    · decide
    · decide
  omega

/-- A word starts at a character that is not one of words only if it is blank and beyond ASCII. -/
theorem startsWord_and_not_isWordChar (c : Char) :
    startsWord c ∧ ¬ isWordChar c ↔ 128 ≤ c.toNat ∧ isBlank c := by
  constructor
  · rintro ⟨hstart, hword⟩
    simp only [startsWord, isWordChar, isPlainWordChar, Char.isAlphanum] at hstart hword
    simp_all
  · rintro ⟨hbeyond, hblank⟩
    simp [startsWord, isWordChar, isPlainWordChar_eq_false hbeyond, hbeyond, hblank]

namespace Lexeme

theorem text_word_eq_nil_iff (c : Char) (cs : List Char) :
    (word (c :: cs)).text = [] ↔ ¬ isWordChar c := by
  unfold word
  split
  · rename_i kind hkind
    have hplain : isPlainWordChar c := by
      by_contra hplain
      rw [List.takeWhile_cons_of_neg hplain] at hkind
      have hnone : Kind.ofWord? [] = none := by decide
      rw [hnone] at hkind
      cases hkind
    simp [hplain, isWordChar]
  · by_cases hword : isWordChar c <;> simp [hword]

theorem text_read_eq_nil_iff (c : Char) (cs : List Char) :
    (read (c :: cs)).text = [] ↔ 128 ≤ c.toNat ∧ isBlank c := by
  rw [← startsWord_and_not_isWordChar, ← text_word_eq_nil_iff c cs]
  constructor
  · intro h
    have hstart := startsWord_of_text_eq_nil h
    rw [read_of_startsWord hstart] at h
    exact ⟨hstart, h⟩
  · rintro ⟨hstart, h⟩
    rwa [read_of_startsWord hstart]

end Lexeme

/-! ## Tokens -/

/-- The token is an identifier that takes up no text. -/
def Token.IsEmptyWord (t : Token) : Prop := t.kind = .identifier ∧ t.span.start = t.span.stop

namespace Scanner

theorem Reads.width_eq_zero_iff {s s' : Scanner} {t : Token} (h : s.Reads t s') :
    t.span.start = t.span.stop ↔ t.text = [] := by
  rw [h.stop, ← width_eq_zero]
  omega

/-- The scanner reads nothing exactly in front of a foreign blank, where it answers an empty
identifier. -/
theorem isEmptyWord_next_iff {s : Scanner} {trivia : List Trivia} {rest : List Char}
    (h : s.Skips trivia rest) :
    s.next.1.IsEmptyWord ↔ ∃ c ∈ rest.head?, isForeignBlank c := by
  rw [Token.IsEmptyWord, s.reads.width_eq_zero_iff]
  obtain ⟨newline, ⟨hnext, -⟩ | ⟨hnext, body, rfl, -⟩⟩ := next_of_skips h
  · rw [hnext]
    change (Lexeme.read rest).kind = .identifier ∧ (Lexeme.read rest).text = [] ↔ _
    cases rest with
    | nil => simp [Lexeme.read]
    | cons c cs =>
      have hforeign : isForeignBlank c = (128 ≤ c.toNat && isBlank c) := by
        rw [isForeignBlank, Bool.eq_false_iff.2 h.noMore.not_blank, Bool.not_false, Bool.and_true]
      have hkind : (Lexeme.read (c :: cs)).text = [] →
          (Lexeme.read (c :: cs)).kind = .identifier := by
        intro htext
        refine (Lexeme.kind_of_text_eq_nil htext).resolve_left fun hend => ?_
        cases (Lexeme.cuts_read (c :: cs)).ended hend
      rw [and_iff_right_of_imp hkind, Lexeme.text_read_eq_nil_iff]
      simp [hforeign]
  · rw [hnext]
    have hslash : isForeignBlank '/' = false := by decide
    simp [place, Lexeme.broken, hslash]

theorem isEmptyWord_of_text_eq_nil {s : Scanner} (hkind : s.next.1.kind ≠ .endOfFile)
    (htext : s.next.1.text = []) : s.next.1.IsEmptyWord :=
  ⟨(halts_of_text_eq_nil htext).1.resolve_left hkind, s.reads.width_eq_zero_iff.2 htext⟩

/-- A scanner that has read nothing reads the same again. -/
theorem isEmptyWord_next_next {s : Scanner} (h : s.next.1.IsEmptyWord) :
    s.next.2.next.1.IsEmptyWord ∧ s.next.2.next.1.span = s.next.1.span := by
  have hreads := s.reads
  have htext := hreads.width_eq_zero_iff.1 h.2
  obtain ⟨hkind, hnil, hsame⟩ := hreads.again (by simp [h.1]) htext
  have hempty : s.next.2.next.1.IsEmptyWord :=
    ⟨hkind.trans h.1, s.next.2.reads.width_eq_zero_iff.2 hnil⟩
  -- both tokens stop where the scanner stands, and both are empty
  have hstop : s.next.2.next.1.span.stop = s.next.1.span.stop := by
    rw [← s.next.2.reads.offset, hsame, hreads.offset]
  refine ⟨hempty, ?_⟩
  calc s.next.2.next.1.span = ⟨s.next.2.next.1.span.start, s.next.2.next.1.span.stop⟩ := rfl
    _ = ⟨s.next.1.span.start, s.next.1.span.stop⟩ := by rw [hempty.2, h.2, hstop]

theorem isEmptyWord_token {s : Scanner} (h : s.next.1.IsEmptyWord) (k : Nat) :
    (s.token k).IsEmptyWord ∧ (s.token k).span = s.next.1.span := by
  induction k with
  | zero => exact ⟨h, rfl⟩
  | succ k ih =>
    obtain ⟨hempty, hspan⟩ := isEmptyWord_next_next (s := s.after k) ih.1
    exact ⟨hempty, hspan.trans ih.2⟩

/-- What reading a token at `s` comes to, where `rest` is the text behind the trivia. -/
structure Advances (s : Scanner) (rest : List Char) : Prop where
  cases : s.next.1.kind = .endOfFile ∧ rest = [] ∨
    s.next.1.span.start < s.next.1.span.stop ∧ s.offset < s.next.2.offset ∨ s.next.1.IsEmptyWord
  stalls_iff : s.next.1.IsEmptyWord ↔ ∃ c ∈ rest.head?, isForeignBlank c
  stalled : s.next.1.IsEmptyWord → ∀ k, (s.token k).IsEmptyWord ∧ (s.token k).span = s.next.1.span
  invalid : s.next.1.kind = .invalid → s.next.1.span.start < s.next.1.span.stop

theorem advances_of_skips {s : Scanner} {trivia : List Trivia} {rest : List Char}
    (h : s.Skips trivia rest) : s.Advances rest := by
  have hreads := s.reads
  obtain ⟨g, -, -, hstart⟩ := hreads.text
  have hstop := hreads.stop
  have hforward : s.next.1.text ≠ [] → s.next.1.span.start < s.next.1.span.stop := by
    intro hne
    have hwidth : width s.next.1.text ≠ 0 := fun h0 => hne (width_eq_zero.1 h0)
    omega
  refine ⟨?_, isEmptyWord_next_iff h, isEmptyWord_token, fun hkind => hforward fun hnil => ?_⟩
  · by_cases hend : s.next.1.kind = .endOfFile
    · refine .inl ⟨hend, ?_⟩
      obtain ⟨newline, ⟨hnext, -⟩ | ⟨hnext, -⟩⟩ := next_of_skips h
      · rw [hnext] at hend
        exact (Lexeme.cuts_read rest).ended hend
      · rw [hnext] at hend
        cases hend
    by_cases hnil : s.next.1.text = []
    · exact .inr (.inr (isEmptyWord_of_text_eq_nil hend hnil))
    · have hlt := hforward hnil
      have hoffset := hreads.offset
      exact .inr (.inl ⟨hlt, by omega⟩)
  · have hempty := isEmptyWord_of_text_eq_nil (by simp [hkind]) hnil
    rw [hempty.1] at hkind
    cases hkind

end Scanner

/-- At every place of a source text the next token is the end of the text, or takes up text and
moves the scanner forward, or is an empty identifier. The last happens exactly in front of a blank
character that is not white space of the language, and then again and again. -/
theorem token_advances_or_stalls (source : String) (n : Nat) :
    ∃ trivia rest, ((Scanner.ofSource source).after n).Skips trivia rest ∧
      ((Scanner.ofSource source).token n).span.start
        = ((Scanner.ofSource source).after n).offset + width (Trivia.textOf trivia) ∧
      ((Scanner.ofSource source).after n).Advances rest := by
  obtain ⟨trivia, rest, hskips⟩ := ((Scanner.ofSource source).after n).exists_skips
  exact ⟨trivia, rest, hskips, Scanner.start_of_skips hskips, Scanner.advances_of_skips hskips⟩

end Ambient
