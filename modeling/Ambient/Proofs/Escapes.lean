import Ambient.Text.Escape
import Ambient.Text.Split
import Ambient.Token.Scanner
/-!
# The grammar of escapes

`Denotes` lists the escapes of a string literal one by one, and `Spells` puts them together with
the characters that stand for themselves. Both carry a mark for what is read although the grammar
of escapes does not have it: a plus sign before hexadecimal digits, and a braced escape that the
text ends without closing. A text has a value if it is spelled in either way, and each text is
spelled in one way only (`unescaped_iff_spells`).
-/

namespace Ambient.Escape

/-- The digits of a code point, behind a plus sign if the mark says so. -/
inductive Numeral : Bool → List Char → Char → Prop
  | digits {cs c} : IsHexDigits cs → c.toNat = hexValue cs → Numeral false cs c
  | plus {cs c} : IsHexDigits cs → c.toNat = hexValue cs → Numeral true ('+' :: cs) c

/-- `Denotes loose cs ds rest`: behind a backslash and before `rest`, the text `cs` is an escape
for `ds`. It is `loose` if the grammar of escapes has no such form. -/
inductive Denotes : Bool → List Char → List Char → List Char → Prop
  | named {c d rest} : (c, d) ∈ named → Denotes false [c] [d] rest
  | nul {rest} : (∀ c ∈ rest.head?, ¬ c.isDigit) → Denotes false ['0'] ['\x00'] rest
  | byte {loose cs c rest} : Numeral loose cs c → cs.length = 2 →
    Denotes loose ('x' :: cs) [c] rest
  | unit {loose cs c rest} : Numeral loose cs c → cs.length = 4 →
    Denotes loose ('u' :: cs) [c] rest
  | braced {loose cs c rest} : Numeral loose cs c →
    Denotes loose ('u' :: '\x7b' :: (cs ++ ['\x7d'])) [c] rest
  | unclosed {signed cs c} : Numeral signed cs c → Denotes true ('u' :: '\x7b' :: cs) [c] []
  | crlf {rest} : Denotes false ['\r', '\n'] [] rest
  | lineBreak {c rest} : isLineBreak c → (c = '\r' → rest.head? ≠ some '\n') →
    Denotes false [c] [] rest
  | self {c rest} : ¬ isLineBreak c → ¬ c.isDigit → c ∉ named.map Prod.fst → c ≠ 'x' → c ≠ 'u' →
    Denotes false [c] [c] rest

/-- `Spells loose raw value`: cut into escapes and other characters, `raw` stands for `value`. It
is `loose` if one of the escapes is. -/
inductive Spells : Bool → List Char → List Char → Prop
  | nil : Spells false [] []
  | plain {loose c cs ds} : c ≠ '\\' → Spells loose cs ds → Spells loose (c :: cs) (c :: ds)
  | escape {loose cs ds loose' rest value} : Denotes loose cs ds rest → Spells loose' rest value →
    Spells (loose || loose') ('\\' :: (cs ++ rest)) (ds ++ value)

/-! ## Code points -/

theorem codePoint?_eq_some_iff {cs : List Char} {c : Char} :
    codePoint? cs = some c ↔ ∃ signed, Numeral signed cs c := by
  have hpoint : ∀ n : Nat, hexNumeral? cs = some n → (codePoint? cs = some c ↔ c.toNat = n) := by
    intro n hn
    simp only [codePoint?, hn, Option.bind_eq_bind, Option.bind_some]
    split
    · rename_i hvalid
      constructor
      · rintro ⟨⟩
        rw [Char.ofNat, dif_pos hvalid]
        rfl
      · rintro rfl
        rw [Char.ofNat_toNat]
    · rename_i hvalid
      refine iff_of_false (by simp) ?_
      rintro rfl
      exact hvalid c.valid
  constructor
  · intro h
    obtain ⟨n, hn, -⟩ := Option.bind_eq_some_iff.1 h
    have hc := (hpoint n hn).1 h
    obtain ⟨digits, hdigits, rfl, rfl | rfl⟩ := exists_digits_of_hexNumeral? hn
    · exact ⟨false, .digits hdigits hc⟩
    · exact ⟨true, .plus hdigits hc⟩
  · rintro ⟨signed, hnumeral⟩
    cases hnumeral with
    | digits hdigits hc => exact (hpoint _ (hexNumeral?_digits hdigits)).2 hc
    | plus hdigits hc => exact (hpoint _ (hexNumeral?_plus hdigits)).2 hc

theorem Numeral.not_mem {signed : Bool} {cs : List Char} {c : Char} (h : Numeral signed cs c)
    {d : Char} (hd : isHexDigit d = false) (hplus : d ≠ '+') : d ∉ cs := by
  cases h with
  | digits hdigits => exact hdigits.not_mem hd
  | plus hdigits =>
    intro hmem
    rcases List.mem_cons.1 hmem with hd' | hmem
    · exact hplus hd'
    · exact hdigits.not_mem hd hmem

theorem Numeral.mem_plus_iff {signed : Bool} {cs : List Char} {c : Char}
    (h : Numeral signed cs c) : '+' ∈ cs ↔ signed = true := by
  cases h with
  | digits hdigits => simpa using hdigits.not_mem (c := '+') (by decide)
  | plus => simp

theorem fixed?_eq_some_iff {n : Nat} {cs ds rest : List Char} :
    fixed? n cs = some (ds, rest) ↔
      ∃ signed numeral c, Numeral signed numeral c ∧ numeral.length = n ∧ ds = [c] ∧
        cs = numeral ++ rest := by
  constructor
  · intro h
    unfold fixed? at h
    split at h
    · rename_i hn
      obtain ⟨c, hc, hpair⟩ := Option.map_eq_some_iff.1 h
      obtain ⟨signed, hnumeral⟩ := codePoint?_eq_some_iff.1 hc
      cases hpair
      exact ⟨signed, _, c, hnumeral, List.length_take_of_le hn, rfl,
        (List.take_append_drop n cs).symm⟩
    · cases h
  · rintro ⟨signed, numeral, c, hnumeral, rfl, rfl, rfl⟩
    rw [fixed?, if_pos (by simp), List.take_left, List.drop_left,
      codePoint?_eq_some_iff.2 ⟨signed, hnumeral⟩, Option.map_some]

/-- The digits of a braced escape go up to the first closing brace or to the end. -/
theorem braced?_eq_some_iff {cs ds rest : List Char} :
    braced? cs = some (ds, rest) ↔
      ∃ signed numeral c, Numeral signed numeral c ∧ ds = [c] ∧
        (cs = numeral ++ '\x7d' :: rest ∨ cs = numeral ∧ rest = []) := by
  constructor
  · intro h
    obtain ⟨c, hc, hpair⟩ := Option.map_eq_some_iff.1 h
    obtain ⟨signed, hnumeral⟩ := codePoint?_eq_some_iff.1 hc
    cases hpair
    refine ⟨signed, _, c, hnumeral, rfl, ?_⟩
    have hsplit := List.takeWhile_append_dropWhile (p := (· != '\x7d')) (l := cs)
    cases hbehind : cs.dropWhile (· != '\x7d') with
    | nil =>
      rw [hbehind, List.append_nil] at hsplit
      exact .inr ⟨hsplit.symm, rfl⟩
    | cons d behind =>
      have hd : d = '\x7d' := by
        have hstop := not_of_mem_head?_dropWhile (c := d) (by rw [hbehind]; rfl)
        simpa using hstop
      rw [hbehind, hd] at hsplit
      exact .inl hsplit.symm
  · rintro ⟨signed, numeral, c, hnumeral, rfl, hcs⟩
    have hpoint := codePoint?_eq_some_iff.2 ⟨signed, hnumeral⟩
    have hall : ∀ d ∈ numeral, (d != '\x7d') = true := fun d hd =>
      bne_iff_ne.2 fun heq => hnumeral.not_mem (by decide) (by decide) (heq ▸ hd)
    have hread : ∀ behind : List Char, (∀ d ∈ behind.head?, ¬ (d != '\x7d') = true) →
        braced? (numeral ++ behind) = some ([c], behind.drop 1) := by
      intro behind hbehind
      rw [braced?, takeWhile_append_stop hall hbehind, dropWhile_append_stop hall hbehind, hpoint,
        Option.map_some]
    rcases hcs with rfl | ⟨rfl, rfl⟩
    · exact hread ('\x7d' :: rest) (by simp)
    · simpa using hread [] (by simp)

/-! ## One escape -/

theorem lookup_named_eq_none {c : Char} (h : c ∉ named.map Prod.fst) : named.lookup c = none := by
  rw [List.lookup_eq_none_iff]
  intro entry hentry
  refine bne_iff_ne.2 fun heq => h ?_
  rw [heq]
  exact List.mem_map_of_mem hentry

theorem read?_unit {cs : List Char} (h : cs.head? ≠ some '\x7b') :
    read? ('u' :: cs) = fixed? 4 cs := by
  unfold read?
  simp only [show named.lookup 'u' = none from rfl, Char.reduceBEq, Bool.false_eq_true, if_false,
    BEq.rfl, if_true]
  split
  · exact absurd rfl h
  · rfl

theorem read?_return {cs : List Char} (h : cs.head? ≠ some '\n') :
    read? ('\r' :: cs) = some ([], cs) := by
  unfold read?
  simp only [show named.lookup '\r' = none from rfl, Char.reduceBEq, Bool.false_eq_true, if_false,
    BEq.rfl, if_true]
  split
  · exact absurd rfl h
  · rfl

theorem read?_of_denotes {loose : Bool} {cs ds rest : List Char} (h : Denotes loose cs ds rest) :
    read? (cs ++ rest) = some (ds, rest) := by
  cases h with
  | named hmem =>
    simp only [named, List.mem_cons, Prod.mk.injEq, List.not_mem_nil, or_false] at hmem
    rcases hmem with ⟨rfl, rfl⟩ | ⟨rfl, rfl⟩ | ⟨rfl, rfl⟩ | ⟨rfl, rfl⟩ | ⟨rfl, rfl⟩ | ⟨rfl, rfl⟩
      <;> rfl
  | nul hdigit =>
    have hnone : rest.head?.any Char.isDigit = false := by
      simpa [Option.any_eq_false] using hdigit
    change (if !rest.head?.any Char.isDigit then some (['\x00'], rest) else _) = _
    rw [hnone]
    rfl
  | @byte _ numeral c _ hnumeral hlength =>
    exact fixed?_eq_some_iff.2 ⟨loose, numeral, c, hnumeral, hlength, rfl, rfl⟩
  | @unit _ numeral c _ hnumeral hlength =>
    have hopen : (numeral ++ rest).head? ≠ some '\x7b' := by
      cases numeral with
      | nil => cases hlength
      | cons d numeral =>
        intro hd
        cases hd
        exact hnumeral.not_mem (by decide) (by decide) (.head _)
    rw [List.cons_append, read?_unit hopen]
    exact fixed?_eq_some_iff.2 ⟨loose, numeral, c, hnumeral, hlength, rfl, rfl⟩
  | @braced _ numeral c _ hnumeral =>
    refine braced?_eq_some_iff.2 ⟨loose, numeral, c, hnumeral, rfl, .inl ?_⟩
    simp
  | @unclosed signed numeral c hnumeral =>
    exact braced?_eq_some_iff.2 ⟨signed, numeral, c, hnumeral, rfl, .inr ⟨by simp, rfl⟩⟩
  | crlf => rfl
  | @lineBreak c _ hbreak hcr =>
    simp only [isLineBreak, Bool.or_eq_true, beq_iff_eq] at hbreak
    rcases hbreak with ((rfl | rfl) | rfl) | rfl
    · rfl
    · exact read?_return (hcr rfl)
    · rfl
    · rfl
  | @self c _ hbreak hdigit hnamed hx hu =>
    simp only [isLineBreak, Bool.or_eq_true, beq_iff_eq, not_or] at hbreak
    obtain ⟨⟨⟨hlf, hcr⟩, hline⟩, hparagraph⟩ := hbreak
    have hzero : c ≠ '0' := by
      rintro rfl
      exact hdigit rfl
    unfold read?
    simp [lookup_named_eq_none hnamed, hx, hu, hcr, hlf, hline, hparagraph, hzero, hdigit]

theorem exists_denotes_of_read? {cs ds rest : List Char} (h : read? cs = some (ds, rest)) :
    ∃ loose escape, cs = escape ++ rest ∧ Denotes loose escape ds rest := by
  revert h
  fun_cases read? cs with
  | case1 =>
    intro h
    cases h
  | case2 c cs d hlookup =>
    intro h
    cases h
    obtain ⟨front, back, hsplit, -⟩ := List.lookup_eq_some_iff.1 hlookup
    exact ⟨false, [c], rfl, .named (by simp [hsplit])⟩
  | case3 c cs hlookup hx =>
    intro h
    obtain ⟨signed, numeral, point, hnumeral, hlength, rfl, rfl⟩ := fixed?_eq_some_iff.1 h
    rw [eq_of_beq hx]
    exact ⟨signed, 'x' :: numeral, rfl, .byte hnumeral hlength⟩
  | case4 c hlookup hx hu digits =>
    intro h
    rw [eq_of_beq hu]
    obtain ⟨signed, numeral, point, hnumeral, rfl, rfl | ⟨rfl, rfl⟩⟩ := braced?_eq_some_iff.1 h
    · exact ⟨signed, _, by simp, .braced hnumeral⟩
    · exact ⟨true, _, by simp, .unclosed hnumeral⟩
  | case5 c cs hlookup hx hu hopen =>
    intro h
    obtain ⟨signed, numeral, point, hnumeral, hlength, rfl, rfl⟩ := fixed?_eq_some_iff.1 h
    rw [eq_of_beq hu]
    exact ⟨signed, 'u' :: numeral, rfl, .unit hnumeral hlength⟩
  | case6 c hlookup hx hu hreturn behind =>
    intro h
    cases h
    rw [eq_of_beq hreturn]
    exact ⟨false, _, rfl, .crlf⟩
  | case7 c cs hlookup hx hu hreturn hfeed =>
    intro h
    cases h
    rw [eq_of_beq hreturn]
    refine ⟨false, _, rfl, .lineBreak rfl fun _ hhead => ?_⟩
    obtain ⟨behind, hbehind⟩ := List.head?_eq_some_iff.1 hhead
    exact hfeed behind hbehind
  | case8 c cs hlookup hx hu hreturn hbreak =>
    intro h
    cases h
    refine ⟨false, [c], rfl, .lineBreak ?_ fun heq => absurd (beq_iff_eq.2 heq) hreturn⟩
    simp only [isLineBreak, Bool.or_eq_true] at hbreak ⊢
    rcases hbreak with (hbreak | hbreak) | hbreak <;> simp [hbreak]
  | case9 c cs hlookup hx hu hreturn hbreak hnul =>
    intro h
    cases h
    rw [Bool.and_eq_true] at hnul
    rw [eq_of_beq hnul.1]
    refine ⟨false, ['0'], rfl, .nul ?_⟩
    simpa [Option.any_eq_false] using hnul.2
  | case10 =>
    intro h
    cases h
  | case11 c cs hlookup hx hu hreturn hbreak hnul hdigit =>
    intro h
    cases h
    refine ⟨false, [c], rfl, .self ?_ hdigit ?_ (by simpa using hx) (by simpa using hu)⟩
    · simp_all [isLineBreak]
    · intro hmem
      obtain ⟨entry, hentry, rfl⟩ := List.mem_map.1 hmem
      exact absurd (List.lookup_eq_none_iff.1 hlookup entry hentry) (by simp)

/-- Whether an escape is loose shows in its text. -/
theorem Denotes.loose_iff {loose : Bool} {cs ds rest : List Char} (h : Denotes loose cs ds rest) :
    loose = true ↔ '+' ∈ cs.tail ∨ ['u', '\x7b'] <+: cs ∧ '\x7d' ∉ cs := by
  cases h with
  | named | nul | lineBreak | self => simp
  | crlf => simp
  | byte hnumeral => simp [hnumeral.mem_plus_iff]
  | @unit _ numeral _ _ hnumeral =>
    have hopen : ¬ ['u', '\x7b'] <+: 'u' :: numeral := by
      rintro ⟨behind, hbehind⟩
      cases hbehind
      exact hnumeral.not_mem (by decide) (by decide) (.head _)
    simp [hnumeral.mem_plus_iff, hopen]
  | braced hnumeral => simp [hnumeral.mem_plus_iff]
  | unclosed hnumeral =>
    have hclose := hnumeral.not_mem (d := '\x7d') (by decide) (by decide)
    simp [hclose]

/-- The text of a literal has one escape behind a backslash, of one value. -/
theorem Denotes.unique {loose loose' : Bool} {cs ds rest cs' ds' rest' : List Char}
    (h : Denotes loose cs ds rest) (h' : Denotes loose' cs' ds' rest')
    (heq : cs ++ rest = cs' ++ rest') : loose = loose' ∧ rest = rest' := by
  have hread := read?_of_denotes h
  rw [heq, read?_of_denotes h'] at hread
  cases hread
  have hcs : cs = cs' := List.append_cancel_right heq
  subst hcs
  exact ⟨Bool.eq_iff_iff.2 (h.loose_iff.trans h'.loose_iff.symm), rfl⟩

/-! ## Whole literals -/

theorem decode?_of_spells {loose : Bool} {raw value : List Char} (h : Spells loose raw value) :
    decode? raw = some value := by
  induction h with
  | nil => exact decode?_nil
  | plain hc _ ih => rw [decode?_plain hc, ih, Option.map_some]
  | escape hdenotes _ ih =>
    rw [decode?_backslash, read?_of_denotes hdenotes, Option.bind_some, ih, Option.map_some]

theorem exists_spells_of_decode? {raw value : List Char} (h : decode? raw = some value) :
    ∃ loose, Spells loose raw value := by
  fun_induction decode? raw generalizing value with
  | case1 =>
    cases h
    exact ⟨false, .nil⟩
  | case2 => cases h
  | case3 c cs hc ds rest hread ih =>
    obtain ⟨behind, hbehind, rfl⟩ := Option.map_eq_some_iff.1 h
    obtain ⟨loose', hspells⟩ := ih hbehind
    obtain ⟨loose, escape, rfl, hdenotes⟩ := exists_denotes_of_read? hread
    rw [eq_of_beq hc]
    exact ⟨loose || loose', .escape hdenotes hspells⟩
  | case4 c cs hc ih =>
    obtain ⟨behind, hbehind, rfl⟩ := Option.map_eq_some_iff.1 h
    obtain ⟨loose, hspells⟩ := ih hbehind
    exact ⟨loose, .plain (by simpa using hc) hspells⟩

/-- No text is spelled both with loose escapes and without. -/
theorem Spells.loose_unique {loose loose' : Bool} {raw value value' : List Char}
    (h : Spells loose raw value) (h' : Spells loose' raw value') : loose = loose' := by
  induction h generalizing loose' value' with
  | nil =>
    cases h'
    rfl
  | plain hc _ ih =>
    cases h' with
    | plain _ hspells => exact ih hspells
    | escape => exact absurd rfl hc
  | @escape _ cs _ _ rest _ hdenotes _ ih =>
    generalize hraw : '\\' :: (cs ++ rest) = raw at h'
    cases h' with
    | nil => cases hraw
    | plain hc => exact absurd (List.head_eq_of_cons_eq hraw).symm hc
    | escape hdenotes' hspells =>
      obtain ⟨rfl, rfl⟩ := hdenotes.unique hdenotes' (List.tail_eq_of_cons_eq hraw)
      rw [ih hspells]

end Ambient.Escape

namespace Ambient

open Escape

/-- A string literal has the value that its text spells, loose escapes among them, and what it has
is what the grammar of escapes says if and only if no loose escape is needed. -/
theorem unescaped_iff_spells (raw : String) :
    (∀ value, unescape? raw = some value ↔ ∃ loose, Spells loose raw.toList value.toList) ∧
      ((∀ value, unescape? raw = some value ↔ Spells false raw.toList value.toList) ↔
        ∀ value, ¬ Spells true raw.toList value) := by
  have hspells : ∀ value : String,
      unescape? raw = some value ↔ ∃ loose, Spells loose raw.toList value.toList := by
    intro value
    constructor
    · intro h
      obtain ⟨cs, hcs, rfl⟩ := Option.map_eq_some_iff.1 h
      rw [String.toList_ofList]
      exact exists_spells_of_decode? hcs
    · rintro ⟨loose, h⟩
      rw [unescape?, decode?_of_spells h, Option.map_some, String.ofList_toList]
  refine ⟨hspells, fun hstrict value hloose => ?_, fun hnone value => ?_⟩
  · have hvalue := (hspells (String.ofList value)).2 ⟨true, by rwa [String.toList_ofList]⟩
    cases hloose.loose_unique ((hstrict _).1 hvalue)
  · refine (hspells value).trans ⟨?_, fun h => ⟨false, h⟩⟩
    rintro ⟨loose, h⟩
    cases loose with
    | false => exact h
    | true => exact absurd h (hnone _)

/-- A signed byte and a brace that is left open: both have a value, and the grammar of escapes has
none for either. -/
theorem unescaped_signed_or_unclosed :
    (unescape? "\\x+4" = some "\x04" ∧ ∀ value, ¬ Spells false "\\x+4".toList value) ∧
      unescape? "\\u\x7b41" = some "A" ∧ ∀ value, ¬ Spells false "\\u\x7b41".toList value := by
  have hfour : Numeral true ['+', '4'] '\x04' :=
    .plus ⟨by decide, List.all_eq_true.1 (by decide)⟩ rfl
  have hletter : Numeral false ['4', '1'] 'A' :=
    .digits ⟨by decide, List.all_eq_true.1 (by decide)⟩ rfl
  have hsigned : Spells true "\\x+4".toList "\x04".toList := .escape (.byte hfour rfl) .nil
  have hunclosed : Spells true "\\u\x7b41".toList "A".toList := .escape (.unclosed hletter) .nil
  refine ⟨⟨?_, fun value h => ?_⟩, ?_, fun value h => ?_⟩
  · rw [unescape?, decode?_of_spells hsigned]
    rfl
  · cases h.loose_unique hsigned
  · rw [unescape?, decode?_of_spells hunclosed]
    rfl
  · cases h.loose_unique hunclosed

end Ambient
