import Ambient.Text.Escape
import Ambient.Text.Json
/-!
# JSON text can be read in one way

The text of a JSON value shows where the value ends and which value it is, whatever comes behind it,
if that does not go on with a digit (`Json.readable`). So values with the same text are equal
(`Json.chars_injective`). The first character tells the kind of a value, an escape inside a string
is undone by the reader of escapes in string literals, and a list goes on as long as there is a
comma.
-/

namespace Ambient.Json

/-- Induction over JSON values, with one hypothesis for each list. -/
@[elab_as_elim]
theorem induct {motive : Json → Prop} (null : motive .null) (bool : ∀ b, motive (.bool b))
    (number : ∀ n, motive (.number n)) (string : ∀ s, motive (.string s))
    (array : ∀ js, (∀ j ∈ js, motive j) → motive (.array js))
    (object : ∀ fs : List (String × Json), (∀ f ∈ fs, motive f.2) → motive (.object fs))
    (j : Json) :
    motive j :=
  @Json.rec motive (fun js => ∀ j ∈ js, motive j) (fun fs => ∀ f ∈ fs, motive f.2)
    (fun f => motive f.2) null bool number string array object
    (fun _ h => nomatch h)
    (fun _ _ hj hjs _ h => (List.mem_cons.1 h).elim (fun e => e ▸ hj) (hjs _))
    (fun _ h => nomatch h)
    (fun _ _ hf hfs _ h => (List.mem_cons.1 h).elim (fun e => e ▸ hf) (hfs _))
    (fun _ _ h => h) j

/-! ## Texts that show where they end -/

/-- The text does not start with a digit. -/
def NoDigitFirst (cs : List Char) : Prop := ∀ c ∈ cs.head?, c.isDigit = false

theorem noDigitFirst_nil : NoDigitFirst [] := by simp [NoDigitFirst]

theorem noDigitFirst_cons {c : Char} (h : c.isDigit = false) (cs : List Char) :
    NoDigitFirst (c :: cs) := by simpa [NoDigitFirst] using h

/-- The text of `a` is the start of no other text, unless a digit comes behind it. -/
def Readable {α : Type} (text : α → List Char) (a : α) : Prop :=
  ∀ b rest rest', NoDigitFirst rest → NoDigitFirst rest' → text a ++ rest = text b ++ rest' →
    a = b ∧ rest = rest'

section Lists

variable {α : Type} {text : α → List Char}

/-- Texts with commas between them. -/
def commaSeparated (text : α → List Char) : List α → List Char
  | [] => []
  | a :: as => text a ++ as.flatMap fun b => ',' :: text b

theorem noDigitFirst_commas (as : List α) {close : Char} (hclose : close.isDigit = false)
    (rest : List Char) :
    NoDigitFirst ((as.flatMap fun a => ',' :: text a) ++ close :: rest) := by
  cases as with
  | nil => exact noDigitFirst_cons hclose rest
  | cons a as => exact noDigitFirst_cons (by decide) _

theorem commas_inj {as bs : List α} {close : Char} {rest rest' : List Char} (hcomma : close ≠ ',')
    (hclose : close.isDigit = false) (has : ∀ a ∈ as, Readable text a)
    (h : (as.flatMap fun a => ',' :: text a) ++ close :: rest
      = (bs.flatMap fun b => ',' :: text b) ++ close :: rest') :
    as = bs ∧ rest = rest' := by
  induction as generalizing bs with
  | nil =>
    cases bs with
    | nil => exact ⟨rfl, List.tail_eq_of_cons_eq h⟩
    | cons b bs => exact absurd (List.head_eq_of_cons_eq h) hcomma
  | cons a as ih =>
    cases bs with
    | nil => exact absurd (List.head_eq_of_cons_eq h).symm hcomma
    | cons b bs =>
      simp only [List.flatMap_cons, List.cons_append, List.append_assoc, List.cons.injEq,
        true_and] at h
      obtain ⟨rfl, hbehind⟩ := has a (.head _) b _ _ (noDigitFirst_commas as hclose rest)
        (noDigitFirst_commas bs hclose rest') h
      obtain ⟨rfl, hrest⟩ := ih (fun x hx => has x (.tail _ hx)) hbehind
      exact ⟨rfl, hrest⟩

theorem commaSeparated_inj {as bs : List α} {close : Char} {rest rest' : List Char}
    (hcomma : close ≠ ',') (hclose : close.isDigit = false) (has : ∀ a ∈ as, Readable text a)
    (hstart : ∀ a r, (text a ++ r).head? ≠ some close)
    (h : commaSeparated text as ++ close :: rest = commaSeparated text bs ++ close :: rest') :
    as = bs ∧ rest = rest' := by
  cases as with
  | nil =>
    cases bs with
    | nil => exact ⟨rfl, List.tail_eq_of_cons_eq h⟩
    | cons b bs =>
      rw [commaSeparated, commaSeparated, List.append_assoc] at h
      exact absurd (congrArg List.head? h).symm (hstart b _)
  | cons a as =>
    cases bs with
    | nil =>
      rw [commaSeparated, commaSeparated, List.append_assoc] at h
      exact absurd (congrArg List.head? h) (hstart a _)
    | cons b bs =>
      rw [commaSeparated, commaSeparated, List.append_assoc, List.append_assoc] at h
      obtain ⟨rfl, hbehind⟩ := has a (.head _) b _ _ (noDigitFirst_commas as hclose rest)
        (noDigitFirst_commas bs hclose rest') h
      obtain ⟨rfl, hrest⟩ := commas_inj hcomma hclose (fun x hx => has x (.tail _ hx)) hbehind
      exact ⟨rfl, hrest⟩

end Lists

/-! ## Strings -/

theorem read?_of_mem_shortEscapes {c letter : Char} (h : (c, letter) ∈ shortEscapes)
    (cs : List Char) : Escape.read? (letter :: cs) = some ([c], cs) := by
  simp only [shortEscapes, List.mem_cons, Prod.mk.injEq, List.not_mem_nil, or_false] at h
  rcases h with ⟨rfl, rfl⟩ | ⟨rfl, rfl⟩ | ⟨rfl, rfl⟩ | ⟨rfl, rfl⟩ | ⟨rfl, rfl⟩ | ⟨rfl, rfl⟩
    | ⟨rfl, rfl⟩ <;> rfl

theorem codePoint?_hexDigits :
    ∀ n < 32, Escape.codePoint? ['0', '0', hexDigit (n / 16), hexDigit (n % 16)]
      = some (Char.ofNat n) := by
  decide

/-- A character is written as itself or as an escape that is read as the character. -/
theorem escape_cases (c : Char) :
    (∃ ds, escape c = '\\' :: ds ∧ ∀ cs, Escape.read? (ds ++ cs) = some ([c], cs)) ∨
      escape c = [c] ∧ c ≠ '"' ∧ c ≠ '\\' := by
  unfold escape
  split
  · rename_i letter hletter
    obtain ⟨front, back, hsplit, -⟩ := List.lookup_eq_some_iff.1 hletter
    have hmem : (c, letter) ∈ shortEscapes := by simp [hsplit]
    exact .inl ⟨[letter], rfl, read?_of_mem_shortEscapes hmem⟩
  · rename_i hnone
    split
    · rename_i hlow
      have hpoint := codePoint?_hexDigits c.toNat hlow
      rw [Char.ofNat_toNat] at hpoint
      refine .inl ⟨_, rfl, fun cs => ?_⟩
      change Escape.fixed? 4
        ('0' :: '0' :: hexDigit (c.toNat / 16) :: hexDigit (c.toNat % 16) :: cs) = _
      simp [Escape.fixed?, hpoint]
    · refine .inr ⟨rfl, ?_, ?_⟩
      · rintro rfl
        simp [shortEscapes] at hnone
      · rintro rfl
        simp [shortEscapes] at hnone

theorem escape_inj {c d : Char} {rest rest' : List Char}
    (h : escape c ++ rest = escape d ++ rest') : c = d ∧ rest = rest' := by
  rcases escape_cases c with ⟨cs, hc, hread⟩ | ⟨hc, -, hbackslash⟩
  · rcases escape_cases d with ⟨ds, hd, hread'⟩ | ⟨hd, -, hbackslash'⟩
    · rw [hc, hd] at h
      have hbehind : cs ++ rest = ds ++ rest' := List.tail_eq_of_cons_eq h
      have hsame := hread rest
      rw [hbehind, hread' rest'] at hsame
      simpa [eq_comm] using hsame
    · rw [hc, hd] at h
      exact absurd (List.head_eq_of_cons_eq h).symm hbackslash'
  · rcases escape_cases d with ⟨ds, hd, hread'⟩ | ⟨hd, -, hbackslash'⟩
    · rw [hc, hd] at h
      exact absurd (List.head_eq_of_cons_eq h) hbackslash
    · rw [hc, hd] at h
      simpa using h

/-- An escaped character does not start with the quote that ends a string. -/
theorem head?_escape (c : Char) (rest : List Char) : (escape c ++ rest).head? ≠ some '"' := by
  rcases escape_cases c with ⟨ds, hc, -⟩ | ⟨hc, hquote, -⟩
  · simp [hc]
  · simp [hc, hquote]

theorem escapes_inj {cs ds rest rest' : List Char}
    (h : cs.flatMap escape ++ '"' :: rest = ds.flatMap escape ++ '"' :: rest') :
    cs = ds ∧ rest = rest' := by
  induction cs generalizing ds with
  | nil =>
    cases ds with
    | nil => exact ⟨rfl, List.tail_eq_of_cons_eq h⟩
    | cons d ds =>
      rw [List.flatMap_cons, List.append_assoc] at h
      exact absurd (congrArg List.head? h).symm (head?_escape d _)
  | cons c cs ih =>
    cases ds with
    | nil =>
      rw [List.flatMap_cons, List.append_assoc] at h
      exact absurd (congrArg List.head? h) (head?_escape c _)
    | cons d ds =>
      rw [List.flatMap_cons, List.flatMap_cons, List.append_assoc, List.append_assoc] at h
      obtain ⟨rfl, hbehind⟩ := escape_inj h
      obtain ⟨rfl, hrest⟩ := ih hbehind
      exact ⟨rfl, hrest⟩

theorem quote_inj {s t : String} {rest rest' : List Char}
    (h : quote s ++ rest = quote t ++ rest') : s = t ∧ rest = rest' := by
  simp only [quote, List.cons_append, List.append_assoc, List.cons.injEq, true_and,
    List.nil_append] at h
  obtain ⟨hchars, hrest⟩ := escapes_inj h
  exact ⟨String.toList_inj.1 hchars, hrest⟩

/-! ## Numbers -/

/-- A run of digits ends where there is no digit. -/
theorem digits_inj {ds es rest rest' : List Char} (hds : ∀ c ∈ ds, c.isDigit)
    (hes : ∀ c ∈ es, c.isDigit) (hrest : NoDigitFirst rest) (hrest' : NoDigitFirst rest')
    (h : ds ++ rest = es ++ rest') : ds = es ∧ rest = rest' := by
  induction ds generalizing es with
  | nil =>
    cases es with
    | nil => exact ⟨rfl, h⟩
    | cons e es =>
      have hdigit := hes e (.head _)
      rw [hrest e (by rw [List.nil_append] at h; simp [h])] at hdigit
      cases hdigit
  | cons d ds ih =>
    cases es with
    | nil =>
      have hdigit := hds d (.head _)
      rw [hrest' d (by rw [List.nil_append] at h; simp [← h])] at hdigit
      cases hdigit
    | cons e es =>
      rw [List.cons_append, List.cons_append, List.cons.injEq] at h
      obtain ⟨rfl, hbehind⟩ := h
      obtain ⟨rfl, heq⟩ :=
        ih (fun c hc => hds c (.tail _ hc)) (fun c hc => hes c (.tail _ hc)) hbehind
      exact ⟨rfl, heq⟩

theorem toDigits_inj {n m : Nat} {rest rest' : List Char} (hrest : NoDigitFirst rest)
    (hrest' : NoDigitFirst rest') (h : Nat.toDigits 10 n ++ rest = Nat.toDigits 10 m ++ rest') :
    n = m ∧ rest = rest' := by
  have hdigits : ∀ k, ∀ c ∈ Nat.toDigits 10 k, c.isDigit := fun k c hc =>
    Nat.isDigit_of_mem_toDigits (by decide) (by decide) hc
  obtain ⟨hsame, heq⟩ := digits_inj (hdigits n) (hdigits m) hrest hrest' h
  have hvalue : ∀ k, Nat.ofDigitChars 10 (Nat.toDigits 10 k) 0 = k := fun k =>
    Nat.ofDigitChars_toDigits (by decide) (by decide)
  exact ⟨by rw [← hvalue n, hsame, hvalue m], heq⟩

/-! ## Values -/

/-- The text of a field. -/
def fieldText (f : String × Json) : List Char := quote f.1 ++ ':' :: f.2.chars

theorem itemChars_eq (js : List Json) : itemChars js = commaSeparated chars js := by
  induction js with
  | nil => rfl
  | cons j js ih =>
    cases js with
    | nil => simp [itemChars, commaSeparated]
    | cons k js => simpa [itemChars, commaSeparated] using ih

theorem fieldChars_eq (fs : List (String × Json)) :
    fieldChars fs = commaSeparated fieldText fs := by
  induction fs with
  | nil => rfl
  | cons f fs ih =>
    cases fs with
    | nil => simp [fieldChars, commaSeparated, fieldText]
    | cons g fs => simpa [fieldChars, commaSeparated, fieldText] using ih

/-- What the text of a value starts with, where a zero stands for all digits. -/
def lead : Json → Char
  | .null => 'n'
  | .bool true => 't'
  | .bool false => 'f'
  | .number _ => '0'
  | .string _ => '"'
  | .array _ => '['
  | .object _ => '\x7b'

/-- The first character, with a zero for any digit. -/
def leadOf (cs : List Char) : Option Char := cs.head?.map fun c => if c.isDigit then '0' else c

theorem leadOf_chars (j : Json) (rest : List Char) : leadOf (j.chars ++ rest) = some j.lead := by
  cases j with
  | bool b => cases b <;> rfl
  | number n =>
    have hne := Nat.toDigits_ne_nil (n := n) (b := 10)
    rw [chars]
    cases hdigits : Nat.toDigits 10 n with
    | nil => exact absurd hdigits hne
    | cons d ds =>
      have hd : d.isDigit := Nat.isDigit_of_mem_toDigits (b := 10) (n := n) (by decide) (by decide)
        (by simp [hdigits])
      simp [leadOf, hd, lead]
  | _ => rfl

theorem lead_eq_of_chars {j k : Json} {rest rest' : List Char}
    (h : j.chars ++ rest = k.chars ++ rest') : j.lead = k.lead := by
  have hlead := leadOf_chars j rest
  rw [h, leadOf_chars k rest'] at hlead
  exact (Option.some.inj hlead).symm

theorem head?_chars (j : Json) (rest : List Char) : (j.chars ++ rest).head? ≠ some ']' := by
  intro h
  have hlead := leadOf_chars j rest
  rw [leadOf, h] at hlead
  cases j with
  | bool b => cases b <;> simp [lead] at hlead
  | _ => simp [lead] at hlead

theorem readable_fieldText {f : String × Json} (h : Readable chars f.2) : Readable fieldText f := by
  intro g rest rest' hrest hrest' heq
  simp only [fieldText, List.append_assoc, List.cons_append] at heq
  obtain ⟨hname, hbehind⟩ := quote_inj heq
  obtain ⟨hvalue, hends⟩ := h g.2 rest rest' hrest hrest' (List.tail_eq_of_cons_eq hbehind)
  exact ⟨Prod.ext hname hvalue, hends⟩

/-- The text of a value shows which value it is and where it ends. -/
theorem readable (j : Json) : Readable chars j := by
  induction j using induct with
  | null =>
    intro k rest rest' hrest hrest' h
    have hlead := lead_eq_of_chars h
    cases k with
    | null => exact ⟨rfl, List.append_cancel_left h⟩
    | bool b => cases b <;> simp [lead] at hlead
    | _ => simp [lead] at hlead
  | bool b =>
    intro k rest rest' hrest hrest' h
    have hlead := lead_eq_of_chars h
    cases k with
    | bool b' =>
      obtain rfl : b = b' := by cases b <;> cases b' <;> simp [lead] at hlead ⊢
      exact ⟨rfl, List.append_cancel_left h⟩
    | _ => cases b <;> simp [lead] at hlead
  | number n =>
    intro k rest rest' hrest hrest' h
    have hlead := lead_eq_of_chars h
    cases k with
    | number m =>
      obtain ⟨rfl, heq⟩ := toDigits_inj hrest hrest' h
      exact ⟨rfl, heq⟩
    | bool b => cases b <;> simp [lead] at hlead
    | _ => simp [lead] at hlead
  | string s =>
    intro k rest rest' hrest hrest' h
    have hlead := lead_eq_of_chars h
    cases k with
    | string t =>
      obtain ⟨rfl, heq⟩ := quote_inj h
      exact ⟨rfl, heq⟩
    | bool b => cases b <;> simp [lead] at hlead
    | _ => simp [lead] at hlead
  | array js ih =>
    intro k rest rest' hrest hrest' h
    have hlead := lead_eq_of_chars h
    cases k with
    | array ks =>
      simp only [chars, itemChars_eq, List.cons_append, List.append_assoc, List.nil_append,
        List.cons.injEq, true_and] at h
      obtain ⟨rfl, heq⟩ := commaSeparated_inj (by decide) (by decide) ih head?_chars h
      exact ⟨rfl, heq⟩
    | bool b => cases b <;> simp [lead] at hlead
    | _ => simp [lead] at hlead
  | object fs ih =>
    intro k rest rest' hrest hrest' h
    have hlead := lead_eq_of_chars h
    cases k with
    | object gs =>
      simp only [chars, fieldChars_eq, List.cons_append, List.append_assoc, List.nil_append,
        List.cons.injEq, true_and] at h
      obtain ⟨rfl, heq⟩ := commaSeparated_inj (by decide) (by decide)
        (fun f hf => readable_fieldText (ih f hf)) (fun f r => by simp [fieldText, quote]) h
      exact ⟨rfl, heq⟩
    | bool b => cases b <;> simp [lead] at hlead
    | _ => simp [lead] at hlead

theorem chars_injective {j k : Json} (h : j.chars = k.chars) : j = k :=
  (readable j k [] [] noDigitFirst_nil noDigitFirst_nil (by rw [h])).1

theorem text_injective {j k : Json} (h : j.text = k.text) : j = k :=
  chars_injective (String.ofList_injective h)

end Ambient.Json
