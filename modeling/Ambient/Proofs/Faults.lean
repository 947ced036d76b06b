import Ambient.Proofs.LiteralTokens
/-!
# What is wrong with a text that is no token

Why a text is no token can be told from the text alone (`Explains`): a comment or a string is not
closed, a number lacks a digit, or a character starts nothing. There is one reason at most
(`Explains.unique`). The scanner finds it, and the error for an unexpected token names it
(`unexpected_names_fault`). The token shows it, too: its first characters and the one behind it are
enough to tell the reasons apart (`Fault.shown`).
-/

namespace Ambient

/-! ## Reasons -/

/-- The text behind the mark of an exponent has no digit where one must be. -/
def LacksDigit (cs : List Char) : Prop :=
  ∀ sign digit rest, IsSign sign → cs = sign ++ digit :: rest → ¬ digit.isDigit

/-- The text starts with no token, for this reason. -/
inductive Explains : Fault → List Char → Prop
  | comment {cs} : OpensComment cs → Explains .unterminatedComment cs
  | lineBreak {quote body rest} : quote = '"' ∨ quote = '\x27' → StringBody quote body →
    Explains .lineBreakInString (quote :: (body ++ '\n' :: rest))
  | openString {quote body} : quote = '"' ∨ quote = '\x27' → StringBody quote body →
    Explains .unterminatedString (quote :: body)
  | openEscape {quote body} : quote = '"' ∨ quote = '\x27' → StringBody quote body →
    Explains .unterminatedString (quote :: (body ++ ['\\']))
  | hex {mark rest} : mark = 'x' ∨ mark = 'X' → (∀ c ∈ rest.head?, ¬ isHexDigit c) →
    Explains .malformedNumber ('0' :: mark :: rest)
  | exponent {mantissa mark rest} : IsMantissa mantissa → mark = 'e' ∨ mark = 'E' →
    LacksDigit rest → Explains .malformedNumber (mantissa ++ mark :: rest)
  | stray {c cs} : Lexeme.StartsNothing c cs → ¬ OpensComment (c :: cs) →
    Explains .strayCharacter (c :: cs)

/-- The reason that a token shows, by its first characters and the text behind it. -/
def Fault.shown (text behind : List Char) : Fault :=
  if ['/', '*'].isPrefixOf text then .unterminatedComment
  else if text.head?.any fun c => c == '"' || c == '\x27' then
    if behind.head? == some '\n' then .lineBreakInString else .unterminatedString
  else if text.head?.any fun c => c.isDigit || c == '.' then .malformedNumber
  else .strayCharacter

/-! ## Strings -/

namespace Lexeme

theorem ending_plain {quote c : Char} (hbackslash : c ≠ '\\') (hline : c ≠ '\n')
    (hquote : c ≠ quote) (cs : List Char) :
    (stringTail quote (c :: cs)).1 = (stringTail quote cs).1 := by
  rw [stringTail, if_neg (by simpa using hline), if_neg (by simpa using hquote)]
  · split
    · rename_i heq
      rw [heq]
    · rename_i heq
      rw [heq]
  · exact fun h => absurd h hbackslash
  · exact fun _ _ h => absurd h hbackslash

/-- How a string ends does not depend on the characters and escapes before. -/
theorem ending_append {quote : Char} {body : List Char} (h : StringBody quote body)
    (rest : List Char) : (stringTail quote (body ++ rest)).1 = (stringTail quote rest).1 := by
  induction h with
  | nil => rfl
  | plain hbackslash hline hquote _ ih =>
    rw [List.cons_append, ending_plain hbackslash hline hquote, ih]
  | escape _ ih => rw [List.cons_append, List.cons_append, stringTail, ih]

theorem ending_lineBreak (quote : Char) (rest : List Char) :
    (stringTail quote ('\n' :: rest)).1 = .lineBreak := by
  rw [stringTail, if_pos (by decide)]
  · exact fun h => absurd h (by decide)
  · exact fun _ _ h => absurd h (by decide)

/-- What is wrong with a string that ends so. -/
def StringEnd.fault : StringEnd → Option Fault
  | closed => none
  | lineBreak => some .lineBreakInString
  | endOfText => some .unterminatedString

theorem fault_string (quote : Char) (cs : List Char) :
    (string quote cs).fault = (stringTail quote cs).1.fault := by
  unfold string
  split
  · rename_i heq
    rw [heq]
    rfl
  · rename_i heq
    rw [heq]
    rfl
  · rename_i heq
    rw [heq]
    rfl

theorem shown_string {quote : Char} (hquote : quote = '"' ∨ quote = '\x27')
    (text behind : List Char) : Fault.shown (quote :: text) behind =
      if behind.head? == some '\n' then .lineBreakInString else .unterminatedString := by
  rcases hquote with rfl | rfl <;> rfl

/-- The fault of a lexeme is why the text `cs` starts with no token, and the lexeme shows it. -/
def Faulty (l : Lexeme) (cs : List Char) : Prop :=
  ∃ fault, l.fault = some fault ∧ Explains fault cs ∧ Fault.shown l.text l.rest = fault

theorem faulty_string {quote : Char} {cs : List Char} (hquote : quote = '"' ∨ quote = '\x27')
    (h : (string quote cs).kind = .invalid) : (string quote cs).Faulty (quote :: cs) := by
  have hshape := stringTail_shape quote cs
  unfold string at h ⊢
  generalize stringTail quote cs = tail at h hshape ⊢
  cases hshape with
  | closed hbody => cases h
  | lineBreak hbody => exact ⟨_, rfl, .lineBreak hquote hbody, shown_string hquote _ _⟩
  | endOfText hbody hrest =>
    refine ⟨_, rfl, .openString hquote hbody, ?_⟩
    exact (shown_string hquote _ _).trans (if_neg (by simpa [broken] using hrest))
  | openEscape hbody hrest =>
    refine ⟨_, rfl, .openEscape hquote hbody, ?_⟩
    exact (shown_string hquote _ _).trans (if_neg (by simpa [broken] using hrest))

/-! ## Numbers -/

theorem fault_ofNumber (wellFormed : Bool) (text rest : List Char) :
    (ofNumber wellFormed text rest).fault = if wellFormed then none else some .malformedNumber := by
  cases wellFormed <;> rfl

theorem sign_digit {sign : List Char} (hsign : IsSign sign) {digit : Char} (hdigit : digit.isDigit)
    (rest : List Char) : Lexeme.sign (sign ++ digit :: rest) = (sign, digit :: rest) := by
  rcases hsign with rfl | rfl | rfl
  · have hnone : ¬ (digit == '+' || digit == '-') := by
      rw [Bool.or_eq_true, beq_iff_eq, beq_iff_eq]
      rintro (rfl | rfl) <;> exact absurd hdigit (by decide)
    rw [List.nil_append, Lexeme.sign, if_neg hnone]
  · rfl
  · rfl

/-- An exponent is refused exactly if it lacks a digit. -/
theorem exponent_mark {mark : Char} (hmark : mark = 'e' ∨ mark = 'E') (cs : List Char) :
    (exponent (mark :: cs)).1 = false ↔ LacksDigit cs := by
  rw [exponent, if_pos (by simpa using hmark)]
  dsimp only
  constructor
  · rintro hnone sign digit rest hsign rfl hdigit
    rw [sign_digit hsign hdigit] at hnone
    simp [hdigit] at hnone
  · intro hlacks
    cases hdigits : (Lexeme.sign cs).2 with
    | nil => rfl
    | cons digit rest =>
      have hcs := sign_append cs
      rw [hdigits] at hcs
      simpa using hlacks _ digit rest (isSign_sign cs) hcs.symm

theorem exists_mark_of_exponent {cs : List Char} (h : (exponent cs).1 = false) :
    ∃ mark rest, (mark = 'e' ∨ mark = 'E') ∧ cs = mark :: rest ∧ LacksDigit rest := by
  cases cs with
  | nil => cases h
  | cons c cs =>
    by_cases hmark : c = 'e' ∨ c = 'E'
    · exact ⟨c, cs, hmark, rfl, (exponent_mark hmark cs).1 h⟩
    · rw [exponent, if_neg (by simpa using hmark)] at h
      cases h

/-- A decimal number is read up to its exponent. -/
theorem fault_decimal {mantissa power : List Char} (hmantissa : IsMantissa mantissa)
    (hpower : ∀ c ∈ power.head?, c = 'e' ∨ c = 'E') :
    (decimal (mantissa ++ power)).fault
      = if (exponent power).1 then none else some .malformedNumber := by
  have hafter : (fraction ((mantissa ++ power).dropWhile Char.isDigit)).2 = power := by
    rcases hmantissa.split hpower with ⟨-, hdrop, -⟩ | ⟨whole, part, -, -, hdrop, hsplit, -⟩
    · rw [hdrop]
      unfold fraction
      split
      · rcases hpower '.' rfl with h | h <;> cases h
      · rfl
    · rw [hdrop, fraction, hsplit.2]
  unfold decimal
  dsimp only
  rw [fault_ofNumber, hafter]

theorem number_mantissa {mantissa power : List Char} (hmantissa : IsMantissa mantissa)
    (hpower : ∀ c ∈ power.head?, c = 'e' ∨ c = 'E') :
    number (mantissa ++ power) = decimal (mantissa ++ power) := by
  rcases number_cases (mantissa ++ power) with ⟨mark, ds, hmark, heq, -⟩ | ⟨-, hnumber⟩
  · exact absurd hmark (hmantissa.not_hexMark hpower heq)
  · exact hnumber

theorem head?_text_number {c : Char} {cs : List Char} (hstart : startsNumber c cs) :
    (number (c :: cs)).text.head? = some c := by
  have hne := text_number_ne_nil hstart
  have hsplit := (cuts_number (c :: cs)).split
  cases htext : (number (c :: cs)).text with
  | nil => exact absurd htext hne
  | cons d text =>
    rw [htext] at hsplit
    exact congrArg some (List.cons.inj hsplit).1

theorem shown_number {c : Char} {cs : List Char} (hstart : startsNumber c cs)
    {text : List Char} (htext : text.head? = some c) (behind : List Char) :
    Fault.shown text behind = .malformedNumber := by
  cases text with
  | nil => cases htext
  | cons d text =>
    obtain rfl := Option.some.inj htext
    have hfirst : d.isDigit ∨ d = '.' := by
      simp only [startsNumber, Bool.or_eq_true, Bool.and_eq_true, beq_iff_eq] at hstart
      rcases hstart with hdigit | ⟨hpoint, -⟩
      · exact .inl hdigit
      · exact .inr hpoint
    have hother : d ≠ '/' ∧ d ≠ '"' ∧ d ≠ '\x27' := by
      refine ⟨?_, ?_, ?_⟩ <;> rintro rfl <;> exact absurd hfirst (by decide)
    simp [Fault.shown, hother, hother.1.symm, hfirst]

theorem faulty_number {c : Char} {cs : List Char} (hstart : startsNumber c cs)
    (h : (number (c :: cs)).kind = .invalid) : (number (c :: cs)).Faulty (c :: cs) := by
  have hshown := shown_number hstart (head?_text_number hstart) (number (c :: cs)).rest
  rcases number_cases (c :: cs) with ⟨mark, ds, hmark, heq, hnumber⟩ | ⟨-, hnumber⟩
  · rw [hnumber] at h
    have hnone : ds.head?.any isHexDigit = false := ofNumber_kind_eq_invalid_iff.1 h
    refine ⟨.malformedNumber, ?_, ?_, hshown⟩
    · rw [hnumber, fault_ofNumber, hnone]
      rfl
    · rw [heq]
      refine .hex hmark fun d hd hdigit => ?_
      rw [Option.mem_def.1 hd, Option.any_some, hdigit] at hnone
      cases hnone
  · have hmantissa := isMantissa_of_startsNumber hstart
    have hfraction := fraction_append ((c :: cs).dropWhile Char.isDigit)
    have hdigits := List.takeWhile_append_dropWhile (p := Char.isDigit) (l := c :: cs)
    rw [hnumber] at h
    unfold decimal at h
    have hnone : (exponent (fraction ((c :: cs).dropWhile Char.isDigit)).2).1 = false :=
      ofNumber_kind_eq_invalid_iff.1 h
    obtain ⟨mark, rest, hmark, hafter, hlacks⟩ := exists_mark_of_exponent hnone
    refine ⟨.malformedNumber, ?_, ?_, hshown⟩
    · rw [hnumber, decimal, fault_ofNumber, hnone]
      rfl
    · rw [← hdigits, ← hfraction, hafter, ← List.append_assoc]
      exact .exponent hmantissa hmark hlacks

theorem faulty_stray {c : Char} {cs : List Char} (h : StartsNothing c cs)
    (hclosed : ¬ OpensComment (c :: cs)) :
    (broken .strayCharacter [c] cs).Faulty (c :: cs) := by
  refine ⟨.strayCharacter, rfl, .stray h hclosed, ?_⟩
  obtain ⟨-, hnumber, hdouble, hsingle, hsign⟩ := h
  have hdigit : c.isDigit = false := by
    simp only [startsNumber, Bool.or_eq_true, not_or] at hnumber
    simpa using hnumber.1
  have hpoint : c ≠ '.' := by
    rintro rfl
    exact hsign (['.'], .dot) (by decide) ⟨cs, rfl⟩
  simp [broken, Fault.shown, hdouble, hsingle, hdigit, hpoint]

/-- A text that is read as no token is so for a reason. -/
theorem faulty_read {cs : List Char} (hclosed : ¬ OpensComment cs)
    (h : (read cs).kind = .invalid) : (read cs).Faulty cs := by
  obtain ⟨c, ds, rfl, ⟨hstart, hread⟩ | ⟨hquote, hread⟩ | ⟨hnothing, hread⟩⟩ :=
    read_of_unnamed (by rw [h]; decide)
  · rw [hread] at h ⊢
    exact faulty_number hstart h
  · rw [hread] at h ⊢
    exact faulty_string hquote h
  · rw [hread]
    exact faulty_stray hnothing hclosed

/-! ## One reason at most -/

theorem not_startsWord_of_isDigit {c : Char} (h : c.isDigit) : ¬ startsWord c :=
  Name.ident_forall (p := fun c => c.isDigit → ¬ startsWord c) (by decide)
    (Name.isIdentChar_of_isDigit h) h

theorem read_of_startsNumber {c : Char} {cs : List Char} (h : startsNumber c cs) :
    read (c :: cs) = number (c :: cs) := by
  have hword : ¬ startsWord c := by
    simp only [startsNumber, Bool.or_eq_true, Bool.and_eq_true, beq_iff_eq] at h
    rcases h with hdigit | ⟨rfl, -⟩
    · exact not_startsWord_of_isDigit hdigit
    · decide
  rw [read, if_neg hword]
  exact if_pos h

theorem read_quote {quote : Char} (h : quote = '"' ∨ quote = '\x27') (cs : List Char) :
    read (quote :: cs) = string quote cs := by
  rcases h with rfl | rfl <;> rfl

theorem startsNumber_of_isMantissa {mantissa : List Char} (h : IsMantissa mantissa)
    (rest : List Char) : ∃ c cs, mantissa ++ rest = c :: cs ∧ startsNumber c cs := by
  have hdigit : ∀ {digits : List Char} (rest : List Char), IsDigits digits →
      ∃ c cs, digits ++ rest = c :: cs ∧ c.isDigit := by
    rintro digits rest ⟨hne, hall⟩
    cases digits with
    | nil => exact absurd rfl hne
    | cons c digits => exact ⟨c, digits ++ rest, rfl, hall c (.head _)⟩
  cases h with
  | whole hdigits =>
    obtain ⟨c, cs, heq, hc⟩ := hdigit rest hdigits
    exact ⟨c, cs, heq, by simp [startsNumber, hc]⟩
  | @pointed digits part hdigits hpart =>
    obtain ⟨c, cs, heq, hc⟩ := hdigit ('.' :: (part ++ rest)) hdigits
    exact ⟨c, cs, by rw [List.append_assoc, List.cons_append, heq], by simp [startsNumber, hc]⟩
  | @fraction part hpart =>
    obtain ⟨c, cs, heq, hc⟩ := hdigit rest hpart
    exact ⟨'.', part ++ rest, rfl, by simp [startsNumber, heq, hc]⟩

/-- What the scanner finds wrong is the reason. -/
theorem fault_read {fault : Fault} {cs : List Char} (h : Explains fault cs)
    (hclosed : ¬ OpensComment cs) : (read cs).fault = some fault := by
  cases h with
  | comment hopen => exact absurd hopen hclosed
  | lineBreak hquote hbody =>
    rw [read_quote hquote, fault_string, ending_append hbody, ending_lineBreak]
    rfl
  | @openString quote body hquote hbody =>
    rw [read_quote hquote, fault_string, ← List.append_nil body, ending_append hbody]
    rfl
  | openEscape hquote hbody =>
    rw [read_quote hquote, fault_string, ending_append hbody]
    rfl
  | @hex mark rest hmark hnone =>
    have hstart : startsNumber '0' (mark :: rest) := rfl
    have hdigit : rest.head?.any isHexDigit = false := by
      cases rest with
      | nil => rfl
      | cons c rest => simpa using hnone c rfl
    rw [read_of_startsNumber hstart, number, if_pos (by simpa using hmark), fault_ofNumber, hdigit]
    rfl
  | @exponent mantissa mark rest hmantissa hmark hlacks =>
    have hpower : ∀ c ∈ (mark :: rest).head?, c = 'e' ∨ c = 'E' := by
      intro c hc
      obtain rfl := Option.some.inj hc
      exact hmark
    obtain ⟨c, cs, heq, hstart⟩ := startsNumber_of_isMantissa hmantissa (mark :: rest)
    rw [heq, read_of_startsNumber hstart, ← heq, number_mantissa hmantissa hpower,
      fault_decimal hmantissa hpower, (exponent_mark hmark rest).2 hlacks]
    rfl
  | @stray c cs hnothing hclosed =>
    rcases read_cons_cases c cs with
      ⟨hword, -⟩ | ⟨hnumber, -⟩ | ⟨hquote, -⟩ | ⟨sign, hsign, hfront, -⟩ | ⟨-, hread⟩
    · exact absurd hword hnothing.1
    · exact absurd hnumber hnothing.2.1
    · rcases hquote with rfl | rfl
      · exact absurd rfl hnothing.2.2.1
      · exact absurd rfl hnothing.2.2.2.1
    · exact absurd hfront (hnothing.2.2.2.2 sign hsign)
    · rw [hread]
      rfl

end Lexeme

/-- Only a comment that is never closed is explained by one. -/
theorem Explains.comment_iff {fault : Fault} {cs : List Char} (h : Explains fault cs) :
    OpensComment cs ↔ fault = .unterminatedComment := by
  have hfirst : ∀ {c : Char} {ds : List Char}, c ≠ '/' → ¬ OpensComment (c :: ds) := by
    rintro c ds hc ⟨body, heq, -⟩
    exact hc (List.cons.inj heq).1
  have hquoted : ∀ {quote : Char}, quote = '"' ∨ quote = '\x27' → quote ≠ '/' := by
    rintro quote (rfl | rfl) <;> decide
  cases h with
  | comment hopen => exact iff_of_true hopen rfl
  | lineBreak hquote | openString hquote | openEscape hquote =>
    exact iff_of_false (hfirst (hquoted hquote)) (by simp)
  | hex hmark hnone => exact iff_of_false (hfirst (by decide)) (by simp)
  | @exponent mantissa mark rest hmantissa hmark hlacks =>
    refine iff_of_false ?_ (by simp)
    obtain ⟨c, cs, heq, hstart⟩ := Lexeme.startsNumber_of_isMantissa hmantissa (mark :: rest)
    rw [heq]
    apply hfirst
    rintro rfl
    exact absurd hstart (by simp [Lexeme.startsNumber, Char.isDigit])
  | stray hnothing hclosed => exact iff_of_false hclosed (by simp)

/-- A text has one reason at most to start with no token. -/
theorem Explains.unique {fault fault' : Fault} {cs : List Char} (h : Explains fault cs)
    (h' : Explains fault' cs) : fault = fault' := by
  by_cases hopen : OpensComment cs
  · rw [h.comment_iff.1 hopen, h'.comment_iff.1 hopen]
  · exact Option.some.inj ((Lexeme.fault_read h hopen).symm.trans (Lexeme.fault_read h' hopen))

/-! ## Tokens -/

theorem Scanner.faulty_next {s : Scanner} {trivia : List Trivia} {rest : List Char}
    (h : s.Skips trivia rest) (hkind : s.next.1.kind = .invalid) : ∃ fault,
      s.next.1.fault = some fault ∧ Explains fault rest ∧
      Fault.shown s.next.1.text s.next.2.rest = fault := by
  obtain ⟨newline, ⟨hnext, hclosed⟩ | ⟨hnext, hopen⟩⟩ := next_of_skips h
  · rw [hnext] at hkind ⊢
    exact Lexeme.faulty_read hclosed hkind
  · rw [hnext]
    refine ⟨.unterminatedComment, rfl, .comment hopen, ?_⟩
    obtain ⟨body, rfl, -⟩ := hopen
    rfl

/-- The causes that stand for a fault of a token. -/
def Cause.lexical : List Cause :=
  [.unterminatedComment, .lineTerminatorInString, .unexpectedEnd, .malformedLiteralNumber]

/-- The error for the unexpected token `t` has the cause that explains why the text `cs`, which `t`
is the start of, starts with no token. It is the given cause only at a stray character. -/
structure Token.Names (t : Token) (cs : List Char) (cause : Cause) : Prop where
  comment : (t.unexpected cause).cause = .unterminatedComment ↔ Explains .unterminatedComment cs
  lineBreak : (t.unexpected cause).cause = .lineTerminatorInString ↔ Explains .lineBreakInString cs
  ending : (t.unexpected cause).cause = .unexpectedEnd ↔ Explains .unterminatedString cs
  number : (t.unexpected cause).cause = .malformedLiteralNumber ↔ Explains .malformedNumber cs
  stray : (t.unexpected cause).cause = cause ↔ Explains .strayCharacter cs

theorem Token.names {t : Token} {cs : List Char} {fault : Fault} (hfault : t.fault = some fault)
    (h : Explains fault cs) {cause : Cause} (hcause : cause ∉ Cause.lexical) :
    t.Names cs cause := by
  have hiff : ∀ other, Explains other cs ↔ other = fault :=
    fun other => ⟨fun hother => hother.unique h, fun heq => heq ▸ h⟩
  have hreported : (t.unexpected cause).cause = cause.atFault (some fault) := by
    rw [Token.unexpected, hfault]
    rfl
  simp only [Cause.lexical, List.mem_cons, List.not_mem_nil, or_false, not_or] at hcause
  obtain ⟨hcomment, hline, hend, hnumber⟩ := hcause
  -- the four causes are different from each other and from the given one
  constructor
  all_goals
    rw [hreported, hiff]
    cases fault <;> simp [Cause.atFault, hcomment, hline, hend, hnumber, Ne.symm hcomment,
      Ne.symm hline, Ne.symm hend, Ne.symm hnumber]

/-- The error for an unexpected token names what is wrong with the text, if the token is invalid,
and is the given one otherwise. -/
theorem unexpected_names_fault (source : String) (n : Nat) :
    ∃ trivia rest, ((Scanner.ofSource source).after n).Skips trivia rest ∧
      ((Scanner.ofSource source).token n).span.start
        = ((Scanner.ofSource source).after n).offset + width (Trivia.textOf trivia) ∧
      (((Scanner.ofSource source).token n).kind ≠ .invalid → ∀ cause,
        ((Scanner.ofSource source).token n).unexpected cause
          = ((Scanner.ofSource source).token n).error cause) ∧
      (((Scanner.ofSource source).token n).kind = .invalid →
        (∀ cause ∉ Cause.lexical, ((Scanner.ofSource source).token n).Names rest cause) ∧
        ((Scanner.ofSource source).token n).fault
          = some (Fault.shown ((Scanner.ofSource source).token n).text
              ((Scanner.ofSource source).after (n + 1)).rest)) := by
  obtain ⟨trivia, rest, hskips⟩ := ((Scanner.ofSource source).after n).exists_skips
  refine ⟨trivia, rest, hskips, Scanner.start_of_skips hskips, fun hvalid cause => ?_,
    fun hkind => ?_⟩
  · have hfault := ((Scanner.ofSource source).reads_token n).faultless hvalid
    rw [Token.unexpected, hfault]
    rfl
  · obtain ⟨fault, hfault, hexplains, hshown⟩ := Scanner.faulty_next hskips hkind
    refine ⟨fun cause hcause => Token.names hfault hexplains hcause, ?_⟩
    exact hfault.trans (congrArg some hshown.symm)

end Ambient
