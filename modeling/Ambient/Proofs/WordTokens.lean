import Ambient.Proofs.Tiling
import Ambient.Text.Split
import Mathlib.Data.List.TakeWhile
/-!
# Words are read as a whole

A token is an identifier or a keyword only where a word starts. It is the keyword that its text
spells, or an identifier where it spells none, and it is read as a whole: no white space stands in
it and no character of words behind it. Two kinds of characters beyond ASCII make exceptions. A
keyword ends with its plain part, so `typeé` is read as `type` and `é`; and the byte order mark is
white space between tokens but a character of words within one. The tokens that are whole words are
exactly those that meet neither (`wordToken_isWhole_iff`).
-/

namespace Ambient

/-! ## The table of keywords -/

namespace Kind

theorem exists_of_ofWord?_eq_some {word : List Char} {kind : Kind} (h : ofWord? word = some kind) :
    ∃ entry ∈ keywords, kind = entry.1 ∧ word = entry.2.toList := by
  obtain ⟨entry, hfind, rfl⟩ := Option.map_eq_some_iff.1 h
  have hspelled := List.find?_some hfind
  exact ⟨entry, List.mem_of_find?_eq_some hfind, rfl, (beq_iff_eq.1 hspelled).symm⟩

theorem ne_of_ofWord?_eq_none {word : List Char} (h : ofWord? word = none) :
    ∀ entry ∈ keywords, word ≠ entry.2.toList := by
  rintro entry hentry rfl
  have hnot := List.find?_eq_none.1 (Option.map_eq_none_iff.1 h) entry hentry
  exact hnot (beq_self_eq_true _)

/-- Keywords of the same kind have the same spelling, and the other way round. -/
theorem keywords_inj : ∀ entry ∈ keywords, ∀ entry' ∈ keywords,
    entry.1 = entry'.1 ↔ entry.2.toList = entry'.2.toList := by
  decide +kernel

theorem keywords_all_plain : keywords.all fun entry =>
    entry.1 != .identifier && entry.2.toList.all isPlainWordChar := by
  decide +kernel

/-- A keyword is no identifier, and its spelling is plain. -/
theorem keywords_plain (entry : Kind × String) (h : entry ∈ keywords) :
    entry.1 ≠ .identifier ∧ ∀ c ∈ entry.2.toList, isPlainWordChar c := by
  simpa using List.all_eq_true.1 keywords_all_plain entry h

theorem isAnyWord_of_isName {kind : Kind} (h : kind.isName) : kind.isAnyWord := by
  revert h
  cases kind <;> decide

end Kind

/-! ## Characters of words -/

theorem isWordChar_of_isPlainWordChar {c : Char} (h : isPlainWordChar c) : isWordChar c := by
  simp [isWordChar, h]

/-- Of the characters that are passed between tokens, only the byte order mark is one of words. -/
theorem eq_byteOrderMark {c : Char} (hword : isWordChar c) (hgap : isSpace c || isLineBreak c) :
    c = '\ufeff' := by
  simp only [isSpace, isLineBreak, Bool.or_eq_true, beq_iff_eq] at hgap
  rcases hgap with (((((rfl | rfl) | rfl) | rfl) | rfl) | rfl) | (((rfl | rfl) | rfl) | rfl)
  case inl.inr => rfl
  all_goals exact absurd hword (by decide)

theorem takeWhile_isPlainWordChar_takeWhile (cs : List Char) :
    (cs.takeWhile isWordChar).takeWhile isPlainWordChar = cs.takeWhile isPlainWordChar := by
  rw [List.takeWhile_takeWhile]
  congr 1
  funext c
  simpa using isWordChar_of_isPlainWordChar (c := c)

/-! ## Words -/

/-- The token is the word that stands before `rest`: a keyword if it spells one, with nothing plain
to follow, and an identifier otherwise, with no character of words to follow. -/
structure Token.EndsBefore (t : Token) (rest : List Char) : Prop where
  classified : ∀ entry ∈ Kind.keywords, t.kind = entry.1 ↔ t.text = entry.2.toList
  keyword : t.kind ≠ .identifier →
    (∀ c ∈ t.text, isPlainWordChar c) ∧ ∀ c ∈ rest.head?, ¬ isPlainWordChar c
  identifier : t.kind = .identifier →
    (∀ c ∈ t.text, isWordChar c) ∧ ∀ c ∈ rest.head?, ¬ isWordChar c

/-- The token before `rest` is a whole word: none of its characters is passed between tokens, no
character of words follows, and it is the keyword that it spells. -/
structure Token.IsWhole (t : Token) (rest : List Char) : Prop where
  unspaced : ∀ c ∈ t.text, ¬ (isSpace c || isLineBreak c)
  maximal : ∀ c ∈ rest.head?, ¬ isWordChar c
  classified : ∀ entry ∈ Kind.keywords, t.kind = entry.1 ↔ t.text = entry.2.toList

namespace Lexeme

theorem endsBefore_word (newline : Bool) (offset : Nat) (cs : List Char) :
    (Scanner.place newline offset (word cs)).1.EndsBefore (word cs).rest := by
  unfold word
  split
  · rename_i kind hkind
    obtain ⟨entry, hentry, rfl, htext⟩ := Kind.exists_of_ofWord?_eq_some hkind
    refine ⟨fun entry' hentry' => ?_, fun _ => ⟨fun c hc => List.mem_takeWhile_imp hc,
      fun c hc => not_of_mem_head?_dropWhile hc⟩, fun h => ?_⟩
    · change entry.1 = entry'.1 ↔ cs.takeWhile isPlainWordChar = entry'.2.toList
      rw [htext]
      exact Kind.keywords_inj entry hentry entry' hentry'
    · exact absurd h (Kind.keywords_plain entry hentry).1
  · rename_i hnone
    refine ⟨fun entry hentry => ⟨fun h => ?_, fun h => ?_⟩, fun h => absurd rfl h,
      fun _ => ⟨fun c hc => List.mem_takeWhile_imp hc, fun c hc => not_of_mem_head?_dropWhile hc⟩⟩
    · exact absurd h.symm (Kind.keywords_plain entry hentry).1
    · -- a text that spells a keyword is plain, so the plain part spells it already
      have hplain : cs.takeWhile isPlainWordChar = entry.2.toList := by
        rw [← takeWhile_isPlainWordChar_takeWhile]
        change (cs.takeWhile isWordChar) = _ at h
        rw [h]
        exact List.takeWhile_eq_self_iff.2 (Kind.keywords_plain entry hentry).2
      exact absurd hplain (Kind.ne_of_ofWord?_eq_none hnone entry hentry)

theorem isAnyWord_ofNumber (wellFormed : Bool) (text rest : List Char) :
    (ofNumber wellFormed text rest).kind.isAnyWord = false := by
  cases wellFormed <;> rfl

theorem isAnyWord_number (cs : List Char) : (number cs).kind.isAnyWord = false := by
  unfold number
  split
  · split
    · exact isAnyWord_ofNumber _ _ _
    · exact isAnyWord_ofNumber _ _ _
  · exact isAnyWord_ofNumber _ _ _

theorem isAnyWord_string (quote : Char) (cs : List Char) :
    (string quote cs).kind.isAnyWord = false := by
  unfold string
  split <;> rfl

/-- Identifiers and keywords are read as words only. -/
theorem read_eq_word {cs : List Char} (h : (read cs).kind.isAnyWord) : read cs = word cs := by
  have hsigns : ∀ s ∈ signs, s.2.isAnyWord = false := by decide
  have hnot : ∀ {l : Lexeme}, l.kind.isAnyWord = false → l.kind.isAnyWord → l = word cs := by
    intro l hfalse htrue
    rw [hfalse] at htrue
    cases htrue
  revert h
  unfold read
  split
  · exact hnot rfl
  · split
    · exact fun _ => rfl
    · split
      · exact hnot (isAnyWord_number _)
      · split
        · exact hnot (isAnyWord_string _ _)
        · split
          · rename_i hfind
            exact hnot (hsigns _ (List.mem_of_find?_eq_some hfind))
          · exact hnot rfl

end Lexeme

/-! ## Tokens of the stream -/

namespace Scanner

theorem endsBefore_next {s : Scanner} (h : s.next.1.kind.isAnyWord) :
    s.next.1.EndsBefore s.next.2.rest := by
  revert h
  unfold next
  cases gap false s.offset s.rest with
  | passed newline offset rest =>
    intro h
    have hread : Lexeme.read rest = Lexeme.word rest := Lexeme.read_eq_word h
    change (place newline offset (Lexeme.read rest)).1.EndsBefore (Lexeme.read rest).rest
    rw [hread]
    exact Lexeme.endsBefore_word newline offset rest
  | unclosed newline offset comment => exact fun h => Bool.noConfusion h

theorem endsBefore_token {s : Scanner} {n : Nat} (h : (s.token n).kind.isAnyWord) :
    (s.token n).EndsBefore (s.after (n + 1)).rest := endsBefore_next h

/-- The token in the source text. -/
theorem exists_source_eq (source : String) (n : Nat) :
    ∃ front, source.toList = front ++ ((ofSource source).token n).text
        ++ ((ofSource source).after (n + 1)).rest ∧
      ((ofSource source).token n).span
        = ⟨width front, width front + width ((ofSource source).token n).text⟩ := by
  have hreads := (ofSource source).reads_token n
  obtain ⟨text, htext, hoffset⟩ := (ofSource source).exists_text (Nat.zero_le n)
  obtain ⟨g, -, hrest, hstart⟩ := hreads.text
  have hin : ((ofSource source).after n).IsIn source := (isIn_ofSource source).behind htext hoffset
  have htoken : IsIn source ⟨_, _⟩ := hin.behind hrest hstart
  obtain ⟨front, hsource, hfront⟩ := htoken
  refine ⟨front, by rw [hsource, List.append_assoc], ?_⟩
  rw [← hfront, ← hreads.stop]

end Scanner

namespace Token.EndsBefore

variable {t : Token} {rest : List Char}

theorem isWhole_identifier (h : t.EndsBefore rest) (hkind : t.kind = .identifier) :
    t.IsWhole rest ↔ '\ufeff' ∉ t.text := by
  obtain ⟨htext, hnext⟩ := h.identifier hkind
  refine ⟨fun hwhole hmem => hwhole.unspaced _ hmem (by decide), fun hmark => ⟨?_, hnext,
    h.classified⟩⟩
  intro c hc hgap
  exact hmark (eq_byteOrderMark (htext c hc) hgap ▸ hc)

theorem isWhole_keyword (h : t.EndsBefore rest) (hkind : t.kind ≠ .identifier) :
    t.IsWhole rest ↔ ∀ c ∈ rest.head?, c.toNat < 128 ∨ isBlank c := by
  obtain ⟨htext, hnext⟩ := h.keyword hkind
  have hword : ∀ c ∈ rest.head?, (¬ isWordChar c ↔ c.toNat < 128 ∨ isBlank c) := by
    intro c hc
    have hplain : isPlainWordChar c = false := by simpa using hnext c hc
    simp only [isWordChar, hplain, Bool.false_or, Bool.and_eq_true, decide_eq_true_eq,
      Bool.not_eq_true', not_and, Bool.not_eq_false, ← Nat.not_lt]
    rw [Decidable.or_iff_not_imp_left]
  refine ⟨fun hwhole c hc => (hword c hc).1 (hwhole.maximal c hc),
    fun hascii => ⟨fun c hc hgap => ?_, fun c hc => (hword c hc).2 (hascii c hc), h.classified⟩⟩
  -- the byte order mark is not plain
  have hmark := eq_byteOrderMark (isWordChar_of_isPlainWordChar (htext c hc)) hgap
  exact absurd (htext c hc) (hmark ▸ by decide)

end Token.EndsBefore

/-- A token is an identifier or a keyword only at a word, which it is read up to the end of. It is
the whole word unless it is an identifier across a byte order mark or a keyword before a character
of words beyond ASCII. -/
theorem wordToken_isWhole_iff {source : String} {n : Nat} {t : Token}
    (ht : (Scanner.ofSource source).token n = t) (hword : t.kind.isAnyWord) :
    ∃ front rest, source.toList = front ++ t.text ++ rest ∧
      t.span = ⟨width front, width front + width t.text⟩ ∧
      t.EndsBefore rest ∧
      (t.IsWhole rest ↔ (t.kind = .identifier ∧ '\ufeff' ∉ t.text) ∨
        (t.kind ≠ .identifier ∧ ∀ c ∈ rest.head?, c.toNat < 128 ∨ isBlank c)) := by
  subst ht
  obtain ⟨front, hsource, hspan⟩ := Scanner.exists_source_eq source n
  have hends := Scanner.endsBefore_token hword
  refine ⟨front, _, hsource, hspan, hends, ?_⟩
  by_cases hkind : ((Scanner.ofSource source).token n).kind = .identifier
  · simp [hends.isWhole_identifier hkind, hkind]
  · simp [hends.isWhole_keyword hkind, hkind]

theorem wordToken_isWhole_iff_types : ((Scanner.ofSource "type typesé").token 1).kind.isAnyWord ∧
    ∃ front rest, "type typesé".toList = front ++ "typesé".toList ++ rest ∧
      ((Scanner.ofSource "type typesé").token 1).IsWhole rest := by
  have htoken : (Scanner.ofSource "type typesé").token 1
      = ⟨.identifier, "typesé".toList, ⟨5, 12⟩, false, none⟩ := by decide +kernel
  obtain ⟨front, rest, hsource, -, -, hiff⟩ := wordToken_isWhole_iff htoken (by decide)
  rw [htoken]
  exact ⟨by decide, front, rest, hsource, hiff.2 (.inl ⟨rfl, by decide⟩)⟩

/-- Neither a keyword before a character beyond ASCII nor an identifier with a byte order mark in it
is a whole word. -/
theorem wordToken_not_isWhole :
    (Scanner.ofSource "typeé").token 0 = ⟨.kwType, "type".toList, ⟨0, 4⟩, false, none⟩ ∧
    (Scanner.ofSource "typeé").token 1 = ⟨.identifier, ['é'], ⟨4, 6⟩, false, none⟩ ∧
    ¬ ((Scanner.ofSource "typeé").token 0).IsWhole ['é'] ∧
    (Scanner.ofSource "a\ufeffb").token 0
      = ⟨.identifier, ['a', '\ufeff', 'b'], ⟨0, 5⟩, false, none⟩ ∧
    ¬ ((Scanner.ofSource "a\ufeffb").token 0).IsWhole [] := by
  have htokens : (Scanner.ofSource "typeé").token 0
        = ⟨.kwType, "type".toList, ⟨0, 4⟩, false, none⟩ ∧
      (Scanner.ofSource "typeé").token 1 = ⟨.identifier, ['é'], ⟨4, 6⟩, false, none⟩ ∧
      (Scanner.ofSource "a\ufeffb").token 0
        = ⟨.identifier, ['a', '\ufeff', 'b'], ⟨0, 5⟩, false, none⟩ := by decide +kernel
  obtain ⟨htype, haccent, hmark⟩ := htokens
  refine ⟨htype, haccent, fun h => ?_, hmark, fun h => ?_⟩
  · exact h.maximal 'é' rfl (by decide)
  · rw [hmark] at h
    exact h.unspaced '\ufeff' (by decide) (by decide)

end Ambient
