import Ambient.Proofs.Literals
import Ambient.Proofs.Scanning
/-!
# Words with spaces between them

A text that is one token on its own is still that token in front of a space
(`Word.spelled_of_isToken`), so a list of words written with one space between each two is read as
these words again (`spells_spaced`).
-/

namespace Ambient

/-- Nothing, or a text that starts with a space. -/
def SpaceFirst (cs : List Char) : Prop := ∀ c ∈ cs.head?, c = ' '

/-! ## Lexemes in front of a space -/

section

variable {tail : List Char} (htail : SpaceFirst tail)

include htail

theorem SpaceFirst.head?_any {p : Char → Bool} (hp : p ' ' = false) (cs : List Char) :
    (cs ++ tail).head?.any p = cs.head?.any p := by
  cases cs with
  | cons c cs => rfl
  | nil =>
    cases tail with
    | nil => rfl
    | cons c cs => simp [htail c rfl, hp]

theorem SpaceFirst.takeWhile {p : Char → Bool} (hp : p ' ' = false) (cs : List Char) :
    (cs ++ tail).takeWhile p = cs.takeWhile p := by
  induction cs with
  | cons c cs ih => simp only [List.cons_append, List.takeWhile_cons, ih]
  | nil =>
    cases tail with
    | nil => rfl
    | cons c cs => simp [htail c rfl, hp]

theorem SpaceFirst.dropWhile {p : Char → Bool} (hp : p ' ' = false) (cs : List Char) :
    (cs ++ tail).dropWhile p = cs.dropWhile p ++ tail := by
  induction cs with
  | cons c cs ih =>
    simp only [List.cons_append, List.dropWhile_cons, ih]
    split <;> rfl
  | nil =>
    cases tail with
    | nil => rfl
    | cons c cs => simp [htail c rfl, hp]

theorem SpaceFirst.isPrefixOf {sign : List Char} (hsign : ' ' ∉ sign) (cs : List Char) :
    sign.isPrefixOf (cs ++ tail) = sign.isPrefixOf cs := by
  induction sign generalizing cs with
  | nil => simp
  | cons d sign ih =>
    cases cs with
    | cons c cs => simp [List.isPrefixOf, ih (fun h => hsign (.tail _ h))]
    | nil =>
      cases tail with
      | nil => rfl
      | cons c cs =>
        obtain rfl := htail c rfl
        have hne : d ≠ ' ' := fun h => hsign (h ▸ .head _)
        simp [List.isPrefixOf, hne]

namespace Lexeme

/-- The lexeme with more text behind it. -/
def before (tail : List Char) (l : Lexeme) : Lexeme := { l with rest := l.rest ++ tail }

theorem word_append (cs : List Char) : word (cs ++ tail) = (word cs).before tail := by
  unfold word
  rw [htail.takeWhile (by decide), htail.takeWhile (by decide), htail.dropWhile (by decide),
    htail.dropWhile (by decide)]
  split <;> rfl

theorem fraction_of_append (cs : List Char) :
    fraction (cs ++ tail) = ((fraction cs).1, (fraction cs).2 ++ tail) := by
  cases cs with
  | nil =>
    cases tail with
    | nil => rfl
    | cons c cs => simp [fraction, htail c rfl]
  | cons c cs =>
    by_cases hc : c = '.'
    · subst hc
      simp [fraction, htail.takeWhile, htail.dropWhile]
    · simp [fraction, hc]

theorem sign_of_append (cs : List Char) :
    sign (cs ++ tail) = ((sign cs).1, (sign cs).2 ++ tail) := by
  cases cs with
  | nil =>
    cases tail with
    | nil => rfl
    | cons c cs => simp [sign, htail c rfl]
  | cons c cs =>
    simp only [List.cons_append, sign]
    split <;> rfl

theorem exponent_of_append (cs : List Char) :
    exponent (cs ++ tail) = ((exponent cs).1, (exponent cs).2.1, (exponent cs).2.2 ++ tail) := by
  cases cs with
  | nil =>
    cases tail with
    | nil => rfl
    | cons c cs => simp [exponent, htail c rfl]
  | cons c cs =>
    simp only [List.cons_append, exponent]
    split
    · rw [sign_of_append htail, htail.head?_any (by decide), htail.takeWhile (by decide),
        htail.dropWhile (by decide)]
    · rfl

omit htail in
theorem ofNumber_append (wellFormed : Bool) (text rest : List Char) :
    ofNumber wellFormed text (rest ++ tail) = (ofNumber wellFormed text rest).before tail := by
  cases wellFormed <;> rfl

theorem decimal_append (cs : List Char) : decimal (cs ++ tail) = (decimal cs).before tail := by
  simp only [decimal, htail.takeWhile (p := Char.isDigit) (by decide),
    htail.dropWhile (p := Char.isDigit) (by decide), fraction_of_append htail,
    exponent_of_append htail, ofNumber_append]

theorem number_append (c : Char) (cs : List Char) :
    number (c :: cs ++ tail) = (number (c :: cs)).before tail := by
  by_cases hc : c = '0'
  · subst hc
    cases cs with
    | cons mark cs =>
      simp only [List.cons_append, number]
      split
      · rw [htail.head?_any (by decide), htail.takeWhile (by decide), htail.dropWhile (by decide),
          ofNumber_append]
      · exact decimal_append htail ('0' :: mark :: cs)
    -- a zero in front of a space is no hexadecimal number
    | nil =>
      have hnumber : number ('0' :: tail) = decimal ('0' :: tail) := by
        cases tail with
        | nil => rfl
        | cons c cs => simp [number, htail c rfl]
      exact hnumber.trans (decimal_append htail ['0'])
  · have hnumber : ∀ ds, number (c :: ds) = decimal (c :: ds) := by simp [number, hc]
    rw [List.cons_append, hnumber, hnumber]
    exact decimal_append htail (c :: cs)

theorem find?_signs_append (cs : List Char) :
    signs.find? (·.1.isPrefixOf (cs ++ tail)) = signs.find? (·.1.isPrefixOf cs) := by
  have hsigns : ∀ sign ∈ signs, ' ' ∉ sign.1 := by decide
  generalize signs = list at hsigns
  induction list with
  | nil => rfl
  | cons sign list ih =>
    rw [List.find?_cons, List.find?_cons, htail.isPrefixOf (hsigns sign (.head _)),
      ih fun s hs => hsigns s (.tail _ hs)]

/-- A space ends every token but a string. -/
theorem read_append {c : Char} (hc : c ≠ '"' ∧ c ≠ '\x27') (cs : List Char) :
    read (c :: cs ++ tail) = (read (c :: cs)).before tail := by
  have hsign := find?_signs_append htail (c :: cs)
  rw [List.cons_append] at hsign ⊢
  rw [read, read, htail.head?_any (by decide), hsign]
  split
  · exact word_append htail (c :: cs)
  split
  · exact number_append htail c cs
  split
  · simp_all
  split
  · rename_i text kind hfind
    have hprefix : text <+: c :: cs := by simpa using List.find?_some hfind
    simp only [before, Lexeme.mk.injEq, true_and]
    rw [← List.cons_append, List.drop_append_of_le_length hprefix.length_le]
    simp
  · rfl

omit htail in
theorem kind_string (quote : Char) (cs : List Char) :
    (string quote cs).kind = .literalString ∨ (string quote cs).kind = .invalid := by
  unfold string
  split
  · exact .inl rfl
  · exact .inr rfl
  · exact .inr rfl

end Lexeme

end

theorem isSolid_cons {c : Char} (hslash : c ≠ '/') (cs : List Char) :
    IsSolid (c :: cs) ↔ isLineBreak c = false ∧ isSpace c = false := by
  -- a gap that starts with a character does not stop in front of it
  have hgap : ∀ newline offset newline' offset', gap newline offset cs
      ≠ .passed newline' offset' (c :: cs) := by
    intro newline offset newline' offset' h
    have hends := ends_gap newline offset cs
    rw [h] at hends
    obtain ⟨g, -, hcs, -⟩ := hends
    have := congrArg List.length hcs
    simp only [List.length_append, List.length_cons] at this
    omega
  constructor
  · intro h
    have h := h false 0
    rw [gap] at h
    · split at h
      · exact absurd h (hgap _ _ _ _)
      split at h
      · exact absurd h (hgap _ _ _ _)
      · simp_all
    · exact fun _ h => absurd h hslash
    · exact fun _ h => absurd h hslash
  · intro h newline offset
    rw [gap]
    · simp [h]
    · exact fun _ h => absurd h hslash
    · exact fun _ h => absurd h hslash

/-! ## Words -/

/-- A token as it is written: its kind and its text. -/
structure Word where
  kind : Kind
  text : List Char
deriving DecidableEq, Repr

/-- Whether the text on its own is read as a single token, of the given kind. -/
def isToken (kind : Kind) (text : List Char) : Bool :=
  (tokenize (String.ofList text)).map (fun t => (t.kind, t.text))
    == [(kind, text), (.endOfFile, [])]

/-- In front of a space or of the end, the text of the word is read as a token of its kind. -/
structure Word.Spelled (w : Word) : Prop where
  notEnd : w.kind ≠ .endOfFile
  solid : ∀ tail, SpaceFirst tail → IsSolid (w.text ++ tail)
  read : ∀ tail, SpaceFirst tail → Lexeme.read (w.text ++ tail) = ⟨w.kind, w.text, tail, none⟩

theorem read_of_isToken {kind : Kind} {text : List Char} (h : isToken kind text)
    (hkind : kind ≠ .invalid) : IsSolid text ∧ Lexeme.read text = ⟨kind, text, [], none⟩ := by
  -- the first token of the text
  obtain ⟨hk, ht⟩ : (Scanner.ofSource (String.ofList text)).next.1.kind = kind ∧
      (Scanner.ofSource (String.ofList text)).next.1.text = text := by
    unfold isToken tokenize Scanner.tokens at h
    dsimp only at h
    split at h <;> simp_all
  have hends := ends_gap false 0 text
  unfold Scanner.next Scanner.ofSource at hk ht
  rw [String.toList_ofList] at hk ht
  generalize gap false 0 text = r at hends hk ht
  cases r with
  | unclosed newline offset comment => exact absurd hk.symm hkind
  | passed newline offset rest =>
    obtain ⟨g, -, hrest, -, hsolid⟩ := hends
    have hcuts := Lexeme.cuts_read rest
    simp only [Scanner.place] at hk ht
    have hsplit := hcuts.split
    have hfault := hcuts.faultless (by rw [hk]; exact hkind)
    -- the token is as long as the text, so nothing comes before or behind it
    have hlength := congrArg List.length hsplit
    have hlength' := congrArg List.length hrest
    rw [ht] at hlength hsplit
    simp only [List.length_append] at hlength hlength'
    obtain rfl : g = [] := List.length_eq_zero_iff.1 (by omega)
    obtain rfl : text = rest := hrest
    have hnil : (Lexeme.read text).rest = [] := List.length_eq_zero_iff.1 (by omega)
    refine ⟨hsolid, ?_⟩
    have hread : Lexeme.read text = ⟨(Lexeme.read text).kind, (Lexeme.read text).text,
      (Lexeme.read text).rest, (Lexeme.read text).fault⟩ := rfl
    rw [hread, hk, ht, hnil, hfault]

theorem Word.spelled_of_isToken {kind : Kind} {text : List Char} (h : isToken kind text)
    (hkind : kind ∉ [.invalid, .endOfFile, .literalString]) : (Word.mk kind text).Spelled := by
  simp only [List.mem_cons, List.not_mem_nil, or_false, not_or] at hkind
  obtain ⟨hinvalid, hend, hstring⟩ := hkind
  obtain ⟨hsolid, hread⟩ := read_of_isToken h hinvalid
  cases text with
  | nil => exact absurd (congrArg Lexeme.kind hread).symm hend
  | cons c cs =>
    have hkind := congrArg Lexeme.kind hread
    have hslash : c ≠ '/' := by
      rintro rfl
      exact hinvalid hkind.symm
    have hquote : c ≠ '"' ∧ c ≠ '\x27' := by
      refine not_or.1 ?_
      rintro (rfl | rfl)
      all_goals
        rcases Lexeme.kind_string _ cs with h | h
        · exact hstring (hkind.symm.trans h)
        · exact hinvalid (hkind.symm.trans h)
    refine ⟨hend, fun tail _ => ?_, fun tail htail => ?_⟩
    · exact (isSolid_cons hslash _).2 ((isSolid_cons hslash _).1 hsolid)
    · rw [Lexeme.read_append htail hquote, hread]
      rfl

theorem Word.spelled_quoted (cs : List Char) :
    (Word.mk .literalString (Name.quoted cs)).Spelled where
  notEnd := fun h => nomatch h
  solid tail _ := (isSolid_cons (by decide) _).2 (by decide)
  read tail _ := Lexeme.read_quoted cs tail

/-- How tokens of this kind are written, if they are all written alike. -/
def Kind.spelling (kind : Kind) : List Char :=
  match Lexeme.signs.find? (·.2 == kind) with
  | some sign => sign.1
  | none => ((keywords.lookup kind).getD "").toList

/-- The word of a sign or a keyword. -/
def Kind.word (kind : Kind) : Word := ⟨kind, kind.spelling⟩

theorem Kind.isToken_spelling {kind : Kind} (h : kind.spelling ≠ []) :
    isToken kind kind.spelling := by
  have hall : (∀ sign ∈ Lexeme.signs, isToken sign.2 sign.1) ∧
      ∀ word ∈ keywords, isToken word.1 word.2.toList := by decide +kernel
  unfold spelling at h ⊢
  split at h
  · rename_i sign hsign
    obtain rfl : sign.2 = kind := by simpa using List.find?_some hsign
    exact hall.1 sign (List.mem_of_find?_eq_some hsign)
  · cases hword : keywords.lookup kind with
    | none => simp [hword] at h
    | some word =>
      obtain ⟨front, back, hmem, -⟩ := List.lookup_eq_some_iff.1 hword
      exact hall.2 (kind, word) (by simp [hmem])

theorem Kind.spelled_word {kind : Kind} (h : kind.spelling ≠ []) : kind.word.Spelled := by
  refine Word.spelled_of_isToken (isToken_spelling h) fun hmem => h ?_
  simp only [List.mem_cons, List.not_mem_nil, or_false] at hmem
  rcases hmem with rfl | rfl | rfl <;> rfl

/-! ## Words in a row -/

/-- The word of a mark that is set or not. -/
def markWords (mark : Kind) (isSet : Bool) : List Word := if isSet then [mark.word] else []

/-- Items with a sign between each two. -/
def joinWords (sign : Kind) : List (List Word) → List Word
  | [] => []
  | item :: items => item ++ items.flatMap (sign.word :: ·)

/-- Items in brackets, with a comma between each two. -/
def listWords (opening closing : Kind) (items : List (List Word)) : List Word :=
  opening.word :: joinWords .comma items ++ [closing.word]

/-- The text of the words with one space between each two. -/
def spaced : List Word → List Char
  | [] => []
  | w :: ws => w.text ++ ws.flatMap fun v => ' ' :: v.text

/-- The token is the word, and no line break comes before it. -/
structure Token.Is (w : Word) (t : Token) : Prop where
  kind : t.kind = w.kind
  text : t.text = w.text
  notEnd : w.kind ≠ .endOfFile
  newline : t.newlineBefore = false

/-- From token `i` on the stream consists of the words. -/
def Scanner.Spells (s : Scanner) : Nat → List Word → Prop
  | i, [] => (s.token i).kind = .endOfFile
  | i, w :: ws => (s.token i).Is w ∧ s.Spells (i + 1) ws

theorem Scanner.next_of_spelled {w : Word} (hw : w.Spelled) {tail : List Char}
    (htail : SpaceFirst tail) {s : Scanner}
    (hrest : s.rest = w.text ++ tail ∨ s.rest = ' ' :: (w.text ++ tail)) :
    s.next.1.Is w ∧ s.next.2.rest = tail := by
  obtain ⟨offset, hgap⟩ : ∃ offset, gap false s.offset s.rest = .passed false offset
      (w.text ++ tail) := by
    rcases hrest with hrest | hrest
    · exact ⟨s.offset, by rw [hrest, hw.solid tail htail]⟩
    · refine ⟨s.offset + ' '.utf8Size, ?_⟩
      rw [hrest, gap, if_neg (by decide), if_pos (by decide), hw.solid tail htail]
      · simp
      · simp
  have hnext : s.next = place false offset ⟨w.kind, w.text, tail, none⟩ := by
    rw [next, hgap, ← hw.read tail htail]
  rw [hnext]
  exact ⟨⟨rfl, rfl, hw.notEnd, rfl⟩, rfl⟩

theorem spaceFirst_flatMap (ws : List Word) : SpaceFirst (ws.flatMap fun v => ' ' :: v.text) := by
  cases ws with
  | nil => exact fun _ h => nomatch h
  | cons w ws => simp [SpaceFirst]

theorem Scanner.spells_of_rest {ws : List Word} (hws : ∀ w ∈ ws, w.Spelled) {s : Scanner} {i : Nat}
    (hrest : (s.after i).rest = spaced ws ∨ (s.after i).rest = ws.flatMap fun v => ' ' :: v.text) :
    s.Spells i ws := by
  induction ws generalizing i with
  | nil =>
    have hnil : (s.after i).rest = [] := by simpa [spaced] using hrest
    have hsolid : IsSolid (s.after i).rest := hnil ▸ isSolid_nil
    unfold Spells token
    rw [next_eq_place hsolid, hnil]
    rfl
  | cons w ws ih =>
    have hnext := next_of_spelled (hws w (.head _)) (spaceFirst_flatMap ws) hrest
    exact ⟨hnext.1, ih (fun v hv => hws v (.tail _ hv)) (.inr hnext.2)⟩

/-- Words with a space between each two are read as these words. -/
theorem spells_spaced {ws : List Word} (hws : ∀ w ∈ ws, w.Spelled) :
    (Scanner.ofSource (String.ofList (spaced ws))).Spells 0 ws :=
  Scanner.spells_of_rest hws (.inl (String.toList_ofList ..))

end Ambient
