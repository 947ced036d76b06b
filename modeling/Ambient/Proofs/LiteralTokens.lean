import Ambient.Proofs.Progress
import Ambient.Proofs.Spelling
import Ambient.Proofs.WordTokens
/-!
# Number and string tokens

What a number or a string token looks like is said by a grammar (`NumberText`, `StringBody`) that
does not follow the scanner. Every token of a source text agrees with it, so the parsers of literals
meet only texts that they can take apart: a number is refused only if it is hexadecimal and too
large, and a string only if an escape in it is malformed (`literalToken_decodes`).
-/

namespace Ambient

/-! ## How a token starts -/

namespace Lexeme

/-- Whether a number starts with these characters. -/
def startsNumber (c : Char) (cs : List Char) : Bool :=
  c.isDigit || (c == '.' && cs.head?.any Char.isDigit)

/-- The text starts with no sign. -/
def NoSign (cs : List Char) : Prop := ∀ sign ∈ signs, ¬ sign.1 <+: cs

/-- The character starts no token. -/
def StartsNothing (c : Char) (cs : List Char) : Prop :=
  ¬ startsWord c ∧ ¬ startsNumber c cs ∧ c ≠ '"' ∧ c ≠ '\x27' ∧ NoSign (c :: cs)

/-- What is read is told by the first character, or the first two. -/
theorem read_cons_cases (c : Char) (cs : List Char) :
    startsWord c ∧ read (c :: cs) = word (c :: cs) ∨
    startsNumber c cs ∧ read (c :: cs) = number (c :: cs) ∨
    (c = '"' ∨ c = '\x27') ∧ read (c :: cs) = string c cs ∨
    (∃ sign ∈ signs, sign.1 <+: c :: cs ∧
      read (c :: cs) = ⟨sign.2, sign.1, (c :: cs).drop sign.1.length, none⟩) ∨
    StartsNothing c cs ∧ read (c :: cs) = broken .strayCharacter [c] cs := by
  by_cases hword : startsWord c
  · exact .inl ⟨hword, read_of_startsWord hword cs⟩
  refine .inr ?_
  by_cases hnumber : c.isDigit || (c == '.' && cs.head?.any Char.isDigit)
  · exact .inl ⟨hnumber, by rw [read, if_neg hword, if_pos hnumber]⟩
  refine .inr ?_
  by_cases hquote : c == '"' || c == '\x27'
  · refine .inl ⟨by simpa using hquote, ?_⟩
    rw [read, if_neg hword, if_neg hnumber, if_pos hquote]
  refine .inr ?_
  rw [read, if_neg hword, if_neg hnumber, if_neg hquote]
  cases hfind : signs.find? (·.1.isPrefixOf (c :: cs)) with
  | some sign =>
    have hfront := List.find?_some hfind
    exact .inl ⟨sign, List.mem_of_find?_eq_some hfind, List.isPrefixOf_iff_prefix.1 hfront, rfl⟩
  | none =>
    have hquotes : c ≠ '"' ∧ c ≠ '\x27' := by simpa using hquote
    refine .inr ⟨⟨hword, hnumber, hquotes.1, hquotes.2, fun sign hsign hfront => ?_⟩, rfl⟩
    exact List.find?_eq_none.1 hfind sign hsign (List.isPrefixOf_iff_prefix.2 hfront)

theorem isAnyWord_word (cs : List Char) : (word cs).kind.isAnyWord := by
  have hkeywords : ∀ entry ∈ Kind.keywords, entry.1.isAnyWord := by decide
  unfold word
  split
  · rename_i kind hkind
    obtain ⟨entry, hentry, rfl, -⟩ := Kind.exists_of_ofWord?_eq_some hkind
    exact hkeywords entry hentry
  · rfl

/-- What is neither a word nor a sign is a number, a string or nothing. -/
theorem read_of_unnamed {cs : List Char}
    (h : (read cs).kind ∈ [.literalNumber, .literalString, .invalid]) : ∃ c ds, cs = c :: ds ∧
      (startsNumber c ds ∧ read cs = number cs ∨ (c = '"' ∨ c = '\x27') ∧ read cs = string c ds ∨
        StartsNothing c ds ∧ read cs = broken .strayCharacter [c] ds) := by
  have hunnamed : ∀ kind ∈ [Kind.literalNumber, .literalString, .invalid],
      ¬ kind.isAnyWord ∧ ∀ sign ∈ signs, sign.2 ≠ kind := by decide
  obtain ⟨hword, hsigns⟩ := hunnamed _ h
  cases cs with
  | nil => exact absurd h (by decide)
  | cons c cs =>
    refine ⟨c, cs, rfl, ?_⟩
    rcases read_cons_cases c cs with
      ⟨-, hread⟩ | hnumber | hstring | ⟨sign, hsign, -, hread⟩ | hstray
    · rw [hread] at hword
      exact absurd (isAnyWord_word _) hword
    · exact .inl hnumber
    · exact .inr (.inl hstring)
    · rw [hread] at hsigns
      exact absurd rfl (hsigns sign hsign)
    · exact .inr (.inr hstray)

theorem ofNumber_kind_eq_number_iff {wellFormed : Bool} {text rest : List Char} :
    (ofNumber wellFormed text rest).kind = .literalNumber ↔ wellFormed = true := by
  cases wellFormed <;> simp [ofNumber, broken]

theorem ofNumber_kind_eq_invalid_iff {wellFormed : Bool} {text rest : List Char} :
    (ofNumber wellFormed text rest).kind = .invalid ↔ wellFormed = false := by
  cases wellFormed <;> simp [ofNumber, broken]

end Lexeme

/-! ## Numbers -/

/-- One or more digits. -/
def IsDigits (cs : List Char) : Prop := cs ≠ [] ∧ ∀ c ∈ cs, c.isDigit

/-- A plus, a minus or nothing. -/
def IsSign (cs : List Char) : Prop := cs = [] ∨ cs = ['+'] ∨ cs = ['-']

/-- A decimal number without its exponent. -/
inductive IsMantissa : List Char → Prop
  | whole {digits} : IsDigits digits → IsMantissa digits
  | pointed {digits part} : IsDigits digits → (∀ c ∈ part, c.isDigit) →
    IsMantissa (digits ++ '.' :: part)
  | fraction {part} : IsDigits part → IsMantissa ('.' :: part)

/-- Nothing, or the exponent of a decimal number, which has a digit at least. -/
inductive IsExponent : List Char → Prop
  | none : IsExponent []
  | some {mark sign digits} : mark = 'e' ∨ mark = 'E' → IsSign sign → IsDigits digits →
    IsExponent (mark :: (sign ++ digits))

/-- The text of a number. -/
inductive NumberText : List Char → Prop
  | hex {mark digits} : mark = 'x' ∨ mark = 'X' → IsHexDigits digits →
    NumberText ('0' :: mark :: digits)
  | decimal {mantissa power} : IsMantissa mantissa → IsExponent power →
    NumberText (mantissa ++ power)

/-- The text is a hexadecimal number of `2 ^ 64` or more. -/
def OverflowsHex (text : List Char) : Prop :=
  ∃ mark digits, (mark = 'x' ∨ mark = 'X') ∧ text = '0' :: mark :: digits ∧
    0x1_0000_0000_0000_0000 ≤ hexValue digits

namespace IsMantissa

/-- Where an exponent may follow, the digits and the point of a mantissa are found again. -/
theorem split {mantissa power : List Char} (h : IsMantissa mantissa)
    (hpower : ∀ c ∈ power.head?, c = 'e' ∨ c = 'E') :
    (mantissa ++ power).takeWhile Char.isDigit = mantissa ∧
        (mantissa ++ power).dropWhile Char.isDigit = power ∧ mantissa ≠ [] ∨
      ∃ whole part, mantissa = whole ++ '.' :: part ∧
        (mantissa ++ power).takeWhile Char.isDigit = whole ∧
        (mantissa ++ power).dropWhile Char.isDigit = '.' :: (part ++ power) ∧
        ((part ++ power).takeWhile Char.isDigit = part ∧
          (part ++ power).dropWhile Char.isDigit = power) ∧
        whole ++ part ≠ [] := by
  have hstop : ∀ c ∈ power.head?, ¬ c.isDigit := by
    intro c hc
    rcases hpower c hc with rfl | rfl <;> decide
  cases h with
  | whole hdigits =>
    exact .inl ⟨takeWhile_append_stop hdigits.2 hstop, dropWhile_append_stop hdigits.2 hstop,
      hdigits.1⟩
  | @pointed digits part hdigits hpart =>
    have hpoint : ∀ c ∈ ('.' :: (part ++ power)).head?, ¬ c.isDigit := by simp
    refine .inr ⟨digits, part, rfl, ?_, ?_, ⟨takeWhile_append_stop hpart hstop,
      dropWhile_append_stop hpart hstop⟩, by simp [hdigits.1]⟩
    · rw [List.append_assoc, List.cons_append, takeWhile_append_stop hdigits.2 hpoint]
    · rw [List.append_assoc, List.cons_append, dropWhile_append_stop hdigits.2 hpoint]
  | @fraction part hpart =>
    refine .inr ⟨[], part, rfl, ?_, ?_, ⟨takeWhile_append_stop hpart.2 hstop,
      dropWhile_append_stop hpart.2 hstop⟩, hpart.1⟩
    · rw [List.cons_append, List.takeWhile_cons_of_neg (by decide)]
    · rw [List.cons_append, List.dropWhile_cons_of_neg (by decide)]

theorem isDigit_or_point {mantissa : List Char} (h : IsMantissa mantissa) :
    ∀ c ∈ mantissa, c.isDigit ∨ c = '.' := by
  intro c hc
  cases h with
  | whole hdigits => exact .inl (hdigits.2 c hc)
  | pointed hdigits hpart =>
    rcases List.mem_append.1 hc with hc | hc
    · exact .inl (hdigits.2 c hc)
    · rcases List.mem_cons.1 hc with rfl | hc
      · exact .inr rfl
      · exact .inl (hpart c hc)
  | fraction hpart =>
    rcases List.mem_cons.1 hc with rfl | hc
    · exact .inr rfl
    · exact .inl (hpart.2 c hc)

theorem ne_nil {mantissa : List Char} (h : IsMantissa mantissa) : mantissa ≠ [] := by
  cases h with
  | whole hdigits => exact hdigits.1
  | pointed hdigits hpart => simp
  | fraction hpart => simp

/-- The second character of a decimal number is no hexadecimal mark. -/
theorem not_hexMark {mantissa power : List Char} (h : IsMantissa mantissa)
    (hpower : ∀ c ∈ power.head?, c = 'e' ∨ c = 'E') {first mark : Char} {rest : List Char}
    (heq : mantissa ++ power = first :: mark :: rest) : ¬ (mark = 'x' ∨ mark = 'X') := by
  have hclass : mark.isDigit ∨ mark = '.' ∨ mark = 'e' ∨ mark = 'E' := by
    cases mantissa with
    | nil => exact absurd rfl h.ne_nil
    | cons d ds =>
      obtain ⟨-, heq⟩ := List.cons.inj heq
      cases ds with
      | nil =>
        obtain rfl : power = mark :: rest := heq
        exact .inr (.inr (hpower mark rfl))
      | cons c ds =>
        obtain ⟨rfl, -⟩ := List.cons.inj heq
        rcases h.isDigit_or_point c (by simp) with hdigit | hpoint
        · exact .inl hdigit
        · exact .inr (.inl hpoint)
  rintro (rfl | rfl) <;> exact absurd hclass (by decide)

end IsMantissa

namespace Lexeme

theorem forall_takeWhile_isDigit (cs : List Char) :
    ∀ c ∈ cs.takeWhile Char.isDigit, c.isDigit := fun _ hc => List.mem_takeWhile_imp hc

theorem isDigits_takeWhile {cs : List Char} (h : cs.head?.any Char.isDigit) :
    IsDigits (cs.takeWhile Char.isDigit) := by
  refine ⟨?_, forall_takeWhile_isDigit cs⟩
  cases cs with
  | nil => simp at h
  | cons c cs =>
    have hc : c.isDigit := by simpa using h
    simp [hc]

/-- The digits and the fraction that are read first. -/
theorem isMantissa_of_startsNumber {c : Char} {cs : List Char} (h : startsNumber c cs) :
    IsMantissa ((c :: cs).takeWhile Char.isDigit
      ++ (fraction ((c :: cs).dropWhile Char.isDigit)).1) := by
  by_cases hc : c.isDigit
  · have hdigits : IsDigits ((c :: cs).takeWhile Char.isDigit) :=
      isDigits_takeWhile (by simpa using hc)
    unfold fraction
    split
    · exact .pointed hdigits (forall_takeWhile_isDigit _)
    · rw [List.append_nil]
      exact .whole hdigits
  · -- the point comes first, and a digit behind it
    simp only [startsNumber, hc, Bool.false_or, Bool.and_eq_true, beq_iff_eq] at h
    obtain ⟨rfl, hdigit⟩ := h
    rw [List.takeWhile_cons_of_neg hc, List.dropWhile_cons_of_neg hc]
    exact .fraction (isDigits_takeWhile hdigit)

theorem isSign_sign (cs : List Char) : IsSign (sign cs).1 := by
  unfold sign
  split
  · split
    · rename_i c cs hc
      simp only [Bool.or_eq_true, beq_iff_eq] at hc
      rcases hc with rfl | rfl
      · exact .inr (.inl rfl)
      · exact .inr (.inr rfl)
    · exact .inl rfl
  · exact .inl rfl

theorem isExponent_of_exponent {cs : List Char} (h : (exponent cs).1 = true) :
    IsExponent (exponent cs).2.1 := by
  unfold exponent at h ⊢
  split
  · rename_i c cs
    dsimp only at h ⊢
    split
    · rename_i hmark
      rw [if_pos hmark] at h
      exact .some (by simpa using hmark) (isSign_sign cs) (isDigits_takeWhile h)
    · exact .none
  · exact .none

theorem kind_number (cs : List Char) :
    (number cs).kind = .literalNumber ∨ (number cs).kind = .invalid := by
  have hkind : ∀ wellFormed text rest, (ofNumber wellFormed text rest).kind = .literalNumber ∨
      (ofNumber wellFormed text rest).kind = .invalid := by
    intro wellFormed text rest
    cases wellFormed
    · exact .inr rfl
    · exact .inl rfl
  unfold number
  split
  · split
    · exact hkind _ _ _
    · exact hkind _ _ _
  · exact hkind _ _ _

theorem numberText_decimal {c : Char} {cs : List Char} (hstart : startsNumber c cs)
    (hkind : (decimal (c :: cs)).kind = .literalNumber) : NumberText (decimal (c :: cs)).text := by
  have hmantissa := isMantissa_of_startsNumber hstart
  unfold decimal at hkind ⊢
  rw [text_ofNumber]
  exact .decimal hmantissa (isExponent_of_exponent (ofNumber_kind_eq_number_iff.1 hkind))

/-- A number is hexadecimal if its second character says so, and decimal otherwise. -/
theorem number_cases (cs : List Char) :
    (∃ mark ds, (mark = 'x' ∨ mark = 'X') ∧ cs = '0' :: mark :: ds ∧
      number cs = ofNumber (ds.head?.any isHexDigit) ('0' :: mark :: ds.takeWhile isHexDigit)
        (ds.dropWhile isHexDigit)) ∨
    (∀ mark ds, cs = '0' :: mark :: ds → ¬ (mark = 'x' ∨ mark = 'X')) ∧
      number cs = decimal cs := by
  fun_cases number cs with
  | case1 mark ds hmark => exact .inl ⟨mark, ds, by simpa using hmark, rfl, rfl⟩
  | case2 mark ds hmark =>
    refine .inr ⟨fun mark' ds' heq => ?_, rfl⟩
    cases heq
    simpa using hmark
  | case3 _ hzero => exact .inr ⟨fun mark ds heq => absurd heq (hzero mark ds), rfl⟩

/-- A number token is written as a number. -/
theorem numberText_number {c : Char} {cs : List Char} (hstart : startsNumber c cs)
    (hkind : (number (c :: cs)).kind = .literalNumber) : NumberText (number (c :: cs)).text := by
  rcases number_cases (c :: cs) with ⟨mark, ds, hmark, -, hnumber⟩ | ⟨-, hnumber⟩
  · rw [hnumber] at hkind ⊢
    rw [text_ofNumber]
    have hdigit : ds.head?.any isHexDigit := ofNumber_kind_eq_number_iff.1 hkind
    refine .hex hmark ⟨?_, fun d hd => List.mem_takeWhile_imp hd⟩
    cases ds with
    | nil => simp at hdigit
    | cons d ds =>
      have hd : isHexDigit d := by simpa using hdigit
      simp [hd]
  · rw [hnumber] at hkind ⊢
    exact numberText_decimal hstart hkind

end Lexeme

/-! ## The check of a number -/

namespace Parser

theorem isPower_of_isExponent {power : List Char} (h : IsExponent power) : isPower power := by
  cases h with
  | none => rfl
  | @some mark sign digits hmark hsign hdigits =>
    obtain ⟨hne, hall⟩ := hdigits
    have hunsigned : unsigned (sign ++ digits) = digits := by
      rcases hsign with rfl | rfl | rfl
      · cases digits with
        | nil => exact absurd rfl hne
        | cons d digits =>
          have hd : d.isDigit := hall d (.head _)
          unfold unsigned
          split
          · rename_i heq
            cases heq
            exact absurd hd (by decide)
          · rename_i heq
            cases heq
            exact absurd hd (by decide)
          · rfl
      · rfl
      · rfl
    simp only [isPower, hunsigned, Bool.and_eq_true, Bool.or_eq_true, beq_iff_eq,
      Bool.not_eq_true', List.isEmpty_eq_false_iff, List.all_eq_true]
    exact ⟨⟨hmark, hne⟩, hall⟩

/-- What follows the mantissa of a decimal number. -/
theorem head?_of_isExponent {power : List Char} (h : IsExponent power) :
    ∀ c ∈ power.head?, c = 'e' ∨ c = 'E' := by
  cases h with
  | none => simp
  | some hmark hsign hdigits =>
    intro c hc
    obtain rfl := Option.some.inj hc
    exact hmark

theorem isDecimal_append {mantissa power : List Char} (hmantissa : IsMantissa mantissa)
    (hpower : IsExponent power) : isDecimal (mantissa ++ power) := by
  have hhead := head?_of_isExponent hpower
  have hcheck := isPower_of_isExponent hpower
  unfold isDecimal
  rcases hmantissa.split hhead with
    ⟨htake, hdrop, hne⟩ | ⟨whole, part, -, htake, hdrop, hsplit, hne⟩
  · have hpoint : pointed power = ([], power) := by
      unfold pointed
      split
      · rcases hhead '.' rfl with h | h <;> cases h
      · rfl
    rw [htake, hdrop, hpoint]
    simp [hne, hcheck]
  · rw [htake, hdrop, pointed, hsplit.1, hsplit.2]
    simp only [hcheck, Bool.and_true, Bool.not_eq_true', List.isEmpty_eq_false_iff]
    exact hne

theorem isExponent_of_isPower {power : List Char} (h : isPower power) : IsExponent power := by
  cases power with
  | nil => exact .none
  | cons mark cs =>
    simp only [isPower, Bool.and_eq_true, Bool.or_eq_true, beq_iff_eq, Bool.not_eq_true',
      List.isEmpty_eq_false_iff, List.all_eq_true] at h
    obtain ⟨⟨hmark, hne⟩, hall⟩ := h
    obtain ⟨sign, hsign, hcs⟩ : ∃ sign, IsSign sign ∧ cs = sign ++ unsigned cs := by
      unfold unsigned
      split
      · exact ⟨['+'], .inr (.inl rfl), rfl⟩
      · exact ⟨['-'], .inr (.inr rfl), rfl⟩
      · exact ⟨[], .inl rfl, rfl⟩
    rw [hcs]
    exact .some hmark hsign ⟨hne, hall⟩

theorem pointed_cases (cs : List Char) :
    (∃ ds, cs = '.' :: ds ∧
      pointed cs = (ds.takeWhile Char.isDigit, ds.dropWhile Char.isDigit)) ∨
    pointed cs = ([], cs) := by
  unfold pointed
  split
  · exact .inl ⟨_, rfl, rfl⟩
  · exact .inr rfl

theorem isDecimal_iff (text : List Char) : isDecimal text ↔
    ∃ mantissa power, IsMantissa mantissa ∧ IsExponent power ∧ text = mantissa ++ power := by
  constructor
  · intro h
    have htext := List.takeWhile_append_dropWhile (p := Char.isDigit) (l := text)
    have hall := Lexeme.forall_takeWhile_isDigit text
    unfold isDecimal at h
    rcases pointed_cases (text.dropWhile Char.isDigit) with ⟨ds, hdrop, hpointed⟩ | hpointed
    · rw [hpointed] at h
      simp only [Bool.and_eq_true, Bool.not_eq_true', List.isEmpty_eq_false_iff] at h
      refine ⟨text.takeWhile Char.isDigit ++ '.' :: ds.takeWhile Char.isDigit,
        ds.dropWhile Char.isDigit, ?_, isExponent_of_isPower h.2, ?_⟩
      · have hpart := Lexeme.forall_takeWhile_isDigit ds
        by_cases hwhole : text.takeWhile Char.isDigit = []
        · rw [hwhole] at h ⊢
          exact .fraction ⟨h.1, hpart⟩
        · exact .pointed ⟨hwhole, hall⟩ hpart
      · rw [List.append_assoc, List.cons_append, List.takeWhile_append_dropWhile, ← hdrop, htext]
    · rw [hpointed] at h
      simp only [List.append_nil, Bool.and_eq_true, Bool.not_eq_true',
        List.isEmpty_eq_false_iff] at h
      exact ⟨_, _, .whole ⟨h.1, hall⟩, isExponent_of_isPower h.2, htext.symm⟩
  · rintro ⟨mantissa, power, hmantissa, hpower, rfl⟩
    exact isDecimal_append hmantissa hpower

/-- Of the texts of numbers only hexadecimal ones of `2 ^ 64` or more do not fit. -/
theorem numberFits_iff {text : List Char} (h : NumberText text) :
    numberFits text ↔ ¬ OverflowsHex text := by
  cases h with
  | @hex mark digits hmark hdigits =>
    have hfits : numberFits ('0' :: mark :: digits)
        = decide (hexValue digits < 0x1_0000_0000_0000_0000) := by
      rw [numberFits, if_pos (by simpa using hmark), hexNumeral?_digits hdigits]
      rfl
    rw [hfits, decide_eq_true_eq]
    constructor
    · rintro hlt ⟨mark', digits', -, heq, hle⟩
      cases heq
      omega
    · intro hnot
      by_contra hge
      exact hnot ⟨mark, digits, hmark, rfl, by omega⟩
  | @decimal mantissa power hmantissa hpower =>
    have hno : ¬ OverflowsHex (mantissa ++ power) := by
      rintro ⟨mark, digits, hmark, heq, -⟩
      exact hmantissa.not_hexMark (head?_of_isExponent hpower) heq hmark
    refine iff_of_true ?_ hno
    have hdecimal := isDecimal_append hmantissa hpower
    unfold numberFits
    split
    · rename_i mark cs heq
      rw [heq] at hdecimal
      rw [if_neg (by simpa using hmantissa.not_hexMark (head?_of_isExponent hpower) heq)]
      exact hdecimal
    · exact hdecimal

end Parser

/-! ## Strings -/

/-- The text between the quotes of a string: no line feed and no such quote stands in it unless
behind a backslash. -/
inductive StringBody (quote : Char) : List Char → Prop
  | nil : StringBody quote []
  | plain {c cs} : c ≠ '\\' → c ≠ '\n' → c ≠ quote → StringBody quote cs →
    StringBody quote (c :: cs)
  | escape {c cs} : StringBody quote cs → StringBody quote ('\\' :: c :: cs)

namespace Lexeme

/-- The text behind the opening quote of a string, by how the string ends. -/
inductive StringTail (quote : Char) : StringEnd × List Char × List Char → List Char → Prop
  | closed {body rest} : StringBody quote body →
    StringTail quote (.closed, body ++ [quote], rest) (body ++ quote :: rest)
  | lineBreak {body rest} : StringBody quote body →
    StringTail quote (.lineBreak, body, '\n' :: rest) (body ++ '\n' :: rest)
  | endOfText {body text rest} : StringBody quote body → rest.head? ≠ some '\n' →
    StringTail quote (.endOfText, text, rest) body
  | openEscape {body text rest} : StringBody quote body → rest.head? ≠ some '\n' →
    StringTail quote (.endOfText, text, rest) (body ++ ['\\'])

/-- What may stand in front of a body may stand in front of all that is behind the quote. -/
theorem StringTail.behind {quote : Char} {front : List Char} {ending : StringEnd}
    {text rest cs : List Char}
    (hfront : ∀ {body}, StringBody quote body → StringBody quote (front ++ body))
    (h : StringTail quote (ending, text, rest) cs) :
    StringTail quote (ending, front ++ text, rest) (front ++ cs) := by
  cases h with
  | closed hbody =>
    rw [← List.append_assoc, ← List.append_assoc]
    exact .closed (hfront hbody)
  | lineBreak hbody =>
    rw [← List.append_assoc]
    exact .lineBreak (hfront hbody)
  | endOfText hbody hrest => exact .endOfText (hfront hbody) hrest
  | openEscape hbody hrest =>
    rw [← List.append_assoc]
    exact .openEscape (hfront hbody) hrest

theorem stringTail_shape (quote : Char) (cs : List Char) :
    StringTail quote (stringTail quote cs) cs := by
  -- a character that is not a backslash, a line feed or the quote
  have hplain : ∀ {c : Char} {cs : List Char}, (c = '\\' → cs = [] → False) →
      (∀ d ds, c = '\\' → cs = d :: ds → False) → ¬ c == '\n' → ¬ c == quote →
      c ≠ '\\' ∧ c ≠ '\n' ∧ c ≠ quote := by
    intro c cs hlast hescape hline hquote
    refine ⟨fun hc => ?_, by simpa using hline, by simpa using hquote⟩
    cases cs with
    | nil => exact hlast hc rfl
    | cons d ds => exact hescape d ds hc rfl
  fun_induction stringTail quote cs with
  | case1 => exact .endOfText .nil (by simp)
  | case2 => exact .openEscape .nil (by simp)
  | case3 c cs ending text rest heq ih =>
    rw [heq] at ih
    have hfront : ∀ {body}, StringBody quote body → StringBody quote (['\\', c] ++ body) := .escape
    exact ih.behind hfront
  | case4 c cs hlast hescape hline =>
    obtain rfl := eq_of_beq hline
    exact .lineBreak .nil
  | case5 c cs hlast hescape hline hquote =>
    obtain rfl := eq_of_beq hquote
    exact .closed .nil
  | case6 c cs hlast hescape hline hquote rest heq ih =>
    rw [heq] at ih
    have hc := hplain hlast hescape hline hquote
    have hrest : (c :: cs).head? ≠ some '\n' := by simpa using hc.2.1
    -- nothing of the rest is kept, so what follows starts here
    cases ih with
    | endOfText hbody _ => exact .endOfText (.plain hc.1 hc.2.1 hc.2.2 hbody) hrest
    | openEscape hbody _ =>
      rw [← List.cons_append]
      exact .openEscape (.plain hc.1 hc.2.1 hc.2.2 hbody) hrest
  | case7 c cs hlast hescape hline hquote ending text rest hkept heq ih =>
    rw [heq] at ih
    obtain ⟨hbackslash, hline, hquote⟩ := hplain hlast hescape hline hquote
    have hfront : ∀ {body}, StringBody quote body → StringBody quote ([c] ++ body) :=
      .plain hbackslash hline hquote
    exact ih.behind hfront

/-- A string token is a text between two quotes. -/
theorem exists_body_of_string {quote : Char} {cs : List Char}
    (h : (string quote cs).kind = .literalString) : ∃ body rest, StringBody quote body ∧
      string quote cs = ⟨.literalString, quote :: (body ++ [quote]), rest, none⟩ := by
  have hshape := stringTail_shape quote cs
  unfold string at h ⊢
  generalize stringTail quote cs = tail at h hshape ⊢
  cases hshape with
  | closed hbody => exact ⟨_, _, hbody, rfl⟩
  | lineBreak hbody => cases h
  | endOfText hbody hrest => cases h
  | openEscape hbody hrest => cases h

end Lexeme

/-! ## Tokens and their values -/

namespace Scanner

theorem read_of_next {s : Scanner} {kind : Kind} (hkind : s.next.1.kind = kind)
    (hvalid : kind ≠ .invalid) :
    ∃ rest, (Lexeme.read rest).kind = kind ∧ s.next.1.text = (Lexeme.read rest).text := by
  obtain ⟨trivia, rest, hskips⟩ := s.exists_skips
  obtain ⟨newline, ⟨hnext, -⟩ | ⟨hnext, -⟩⟩ := next_of_skips hskips
  · rw [hnext] at hkind ⊢
    exact ⟨rest, hkind, rfl⟩
  · rw [hnext] at hkind
    exact absurd hkind.symm hvalid

theorem numberText_next {s : Scanner} (h : s.next.1.kind = .literalNumber) :
    NumberText s.next.1.text := by
  obtain ⟨rest, hkind, htext⟩ := read_of_next h (by decide)
  obtain ⟨c, cs, rfl, ⟨hstart, hread⟩ | ⟨-, hread⟩ | ⟨-, hread⟩⟩ :=
    Lexeme.read_of_unnamed (by rw [hkind]; decide)
  · rw [hread] at hkind
    rw [htext, hread]
    exact Lexeme.numberText_number hstart hkind
  · rw [hread] at hkind
    rcases Lexeme.kind_string c cs with hstring | hstring <;> cases hkind.symm.trans hstring
  · rw [hread] at hkind
    cases hkind

theorem exists_body_next {s : Scanner} (h : s.next.1.kind = .literalString) :
    ∃ quote body, (quote = '"' ∨ quote = '\x27') ∧ StringBody quote body ∧
      s.next.1.text = quote :: (body ++ [quote]) := by
  obtain ⟨rest, hkind, htext⟩ := read_of_next h (by decide)
  obtain ⟨c, cs, rfl, ⟨-, hread⟩ | ⟨hquote, hread⟩ | ⟨-, hread⟩⟩ :=
    Lexeme.read_of_unnamed (by rw [hkind]; decide)
  · rw [hread] at hkind
    rcases Lexeme.kind_number (c :: cs) with hnumber | hnumber <;> cases hkind.symm.trans hnumber
  · rw [hread] at hkind
    obtain ⟨body, rest, hbody, hstring⟩ := Lexeme.exists_body_of_string hkind
    refine ⟨c, body, hquote, hbody, ?_⟩
    rw [htext, hread, hstring]
  · rw [hread] at hkind
    cases hkind

end Scanner

namespace Parser

theorem require_of_look {b : Buffer} {t : Token} {kind : Kind} (h : b.look.1 = t)
    (hkind : t.kind = kind) : require kind b = .ok t b.consume.2 := by
  have hconsume : consume b = .ok t b.consume.2 := by
    rw [← h]
    rfl
  rw [require, bind_of_ok hconsume, if_pos (beq_iff_eq.2 hkind)]
  rfl

theorem number_of_look {b : Buffer} {t : Token} (h : b.look.1 = t)
    (hkind : t.kind = .literalNumber) :
    number b = if numberFits t.text then .ok t.word b.consume.2
      else .fail (t.error .malformedLiteralNumber) b.consume.2 := by
  rw [number, bind_of_ok (require_of_look h hkind)]
  split <;> rfl

/-- What becomes of a string token is told by the decoder of escapes. -/
theorem string_of_look {b : Buffer} {t : Token} (h : b.look.1 = t)
    (hkind : t.kind = .literalString) :
    (∀ value, Escape.decode? (unquote t.text) = some value →
        string b = .ok (String.ofList value) b.consume.2) ∧
      (Escape.decode? (unquote t.text) = none →
        string b = .fail (t.error .invalidCharacterEscape) b.consume.2) := by
  constructor
  · intro value hvalue
    have hspan : stringWithSpan b = .ok (t.span, String.ofList value) b.consume.2 := by
      rw [stringWithSpan, bind_of_ok (require_of_look h hkind), hvalue]
      rfl
    rw [string, bind_of_ok hspan]
    rfl
  · intro hnone
    have hspan : stringWithSpan b = .fail (t.error .invalidCharacterEscape) b.consume.2 := by
      rw [stringWithSpan, bind_of_ok (require_of_look h hkind), hnone]
      rfl
    exact bind_of_fail hspan _

end Parser

namespace Token

/-- The text of the token is a number, and the parser of numbers takes it unless it is hexadecimal
and too large. -/
structure IsNumber (t : Token) : Prop where
  text : NumberText t.text
  taken (b : Buffer) : b.look.1 = t → ¬ OverflowsHex t.text →
    Parser.number b = .ok t.word b.consume.2
  refused (b : Buffer) : b.look.1 = t → OverflowsHex t.text →
    Parser.number b = .fail (t.error .malformedLiteralNumber) b.consume.2

/-- The text of the token is `body` between two quotes. The parser of strings cuts them off, each
of them one byte, and takes the token unless an escape in `body` is malformed. -/
structure IsString (t : Token) (quote : Char) (body : List Char) : Prop where
  quotes : quote = '"' ∨ quote = '\x27'
  shape : StringBody quote body
  text : t.text = quote :: (body ++ [quote])
  size : t.word.utf8ByteSize = 1 + width body + 1
  boundaries : String.Pos.Raw.IsValid t.word ⟨1⟩ ∧ String.Pos.Raw.IsValid t.word ⟨1 + width body⟩
  unquoted : Parser.unquote t.text = body
  taken (b : Buffer) : b.look.1 = t → ∀ value, unescape? (String.ofList body) = some value →
    Parser.string b = .ok value b.consume.2
  refused (b : Buffer) : b.look.1 = t → unescape? (String.ofList body) = none →
    Parser.string b = .fail (t.error .invalidCharacterEscape) b.consume.2

theorem isNumber {t : Token} (hkind : t.kind = .literalNumber) (htext : NumberText t.text) :
    t.IsNumber := by
  have hfits := Parser.numberFits_iff htext
  refine ⟨htext, fun b hb hsmall => ?_, fun b hb hlarge => ?_⟩
  · rw [Parser.number_of_look hb hkind, if_pos (hfits.2 hsmall)]
  · rw [Parser.number_of_look hb hkind, if_neg fun h => hfits.1 h hlarge]

theorem isString {t : Token} {quote : Char} {body : List Char} (hkind : t.kind = .literalString)
    (hquote : quote = '"' ∨ quote = '\x27') (hbody : StringBody quote body)
    (htext : t.text = quote :: (body ++ [quote])) : t.IsString quote body := by
  have hwidth : quote.utf8Size = 1 := by rcases hquote with rfl | rfl <;> rfl
  have hunquote : Parser.unquote t.text = body := by
    rw [htext, Parser.unquote, List.drop_one, List.tail_cons, List.dropLast_concat]
  have hword : t.word.toList = quote :: (body ++ [quote]) := by
    rw [Token.word, String.toList_ofList, htext]
  refine ⟨hquote, hbody, htext, ?_, ⟨?_, ?_⟩, hunquote, fun b hb value hvalue => ?_,
    fun b hb hnone => ?_⟩
  · rw [← width_toList, hword]
    simp [hwidth]
    omega
  · have hfront : t.word.toList = [quote] ++ (body ++ [quote]) := hword
    simpa [hwidth] using isValid_width hfront
  · have hfront : t.word.toList = (quote :: body) ++ [quote] := hword
    simpa [hwidth] using isValid_width hfront
  · rw [unescape?, String.toList_ofList, ← hunquote] at hvalue
    obtain ⟨cs, hcs, rfl⟩ := Option.map_eq_some_iff.1 hvalue
    exact (Parser.string_of_look hb hkind).1 cs hcs
  · rw [unescape?, String.toList_ofList, ← hunquote] at hnone
    exact (Parser.string_of_look hb hkind).2 (Option.map_eq_none_iff.1 hnone)

end Token

/-- The number and string tokens of a source text are what the parsers of literals expect, and the
check that decimal numbers go through accepts exactly a mantissa with or without an exponent. -/
theorem literalToken_decodes (source : String) (n : Nat) :
    (((Scanner.ofSource source).token n).kind = .literalNumber →
        ((Scanner.ofSource source).token n).IsNumber) ∧
      (((Scanner.ofSource source).token n).kind = .literalString →
        ∃ quote body, ((Scanner.ofSource source).token n).IsString quote body) ∧
      ∀ text, Parser.isDecimal text ↔
        ∃ mantissa power, IsMantissa mantissa ∧ IsExponent power ∧ text = mantissa ++ power := by
  refine ⟨fun hkind => ?_, fun hkind => ?_, Parser.isDecimal_iff⟩
  · exact Token.isNumber hkind (Scanner.numberText_next hkind)
  · obtain ⟨quote, body, hquote, hbody, htext⟩ := Scanner.exists_body_next hkind
    exact ⟨quote, body, Token.isString hkind hquote hbody htext⟩

end Ambient
