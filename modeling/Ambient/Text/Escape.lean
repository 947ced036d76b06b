import Ambient.Text.Hex
/-!
# Escapes in string literals

`unescape?` gives the value of a string literal from the text between its quotes. A backslash
starts an escape: a short name for a control character, a code point in hexadecimal, a line break
that is left out, or any other character that stands for itself.
-/

namespace Ambient.Escape

/-- The characters that escapes name by one letter. -/
def named : List (Char × Char) :=
  [('b', '\x08'), ('f', '\x0c'), ('n', '\n'), ('r', '\r'), ('t', '\t'), ('v', '\x0b')]

/-- The character with the code point that a hexadecimal numeral denotes, if there is one. -/
def codePoint? (numeral : List Char) : Option Char := do
  let n ← hexNumeral? numeral
  if n.isValidChar then some (Char.ofNat n) else none

/-- An escape of exactly `n` hexadecimal characters. -/
def fixed? (n : Nat) (cs : List Char) : Option (List Char × List Char) :=
  if n ≤ cs.length then (codePoint? (cs.take n)).map fun c => ([c], cs.drop n) else none

/-- An escape of hexadecimal characters up to a closing brace, or to the end of the text. -/
def braced? (cs : List Char) : Option (List Char × List Char) :=
  (codePoint? (cs.takeWhile (· != '\x7d'))).map fun c => ([c], (cs.dropWhile (· != '\x7d')).drop 1)

/-- Reads one escape, after its backslash: the text it denotes and what follows. -/
def read? : List Char → Option (List Char × List Char)
  | [] => none
  | c :: cs =>
    match named.lookup c with
    | some d => some ([d], cs)
    | none =>
      if c == 'x' then fixed? 2 cs
      else if c == 'u' then
        match cs with
        | '\x7b' :: digits => braced? digits
        | _ => fixed? 4 cs
      else if c == '\r' then
        match cs with
        | '\n' :: rest => some ([], rest)
        | _ => some ([], cs)
      else if c == '\n' || c == '\u2028' || c == '\u2029' then some ([], cs)
      else if c == '0' && !cs.head?.any Char.isDigit then some (['\x00'], cs)
      else if c.isDigit then none
      else some ([c], cs)

theorem fixed?_length {n : Nat} {cs ds rest : List Char} (h : fixed? n cs = some (ds, rest)) :
    rest.length ≤ cs.length := by
  simp only [fixed?] at h
  split at h
  · obtain ⟨c, -, hc⟩ := Option.map_eq_some_iff.1 h
    cases hc
    simp
  · cases h

theorem braced?_length {cs ds rest : List Char} (h : braced? cs = some (ds, rest)) :
    rest.length ≤ cs.length := by
  obtain ⟨c, -, hc⟩ := Option.map_eq_some_iff.1 h
  cases hc
  have := (List.dropWhile_sublist (· != '\x7d') (l := cs)).length_le
  simp only [List.length_drop]
  omega

/-- An escape takes up text. -/
theorem read?_length {cs ds rest : List Char} (h : read? cs = some (ds, rest)) :
    rest.length < cs.length := by
  cases cs with
  | nil => cases h
  | cons c cs =>
    have keep : ∀ {a b : List Char}, b.length ≤ cs.length → some (a, b) = some (ds, rest) →
        rest.length < (c :: cs).length := by
      intro a b hb hab
      cases hab
      simp only [List.length_cons]
      omega
    simp only [read?] at h
    split at h
    · exact keep (Nat.le_refl _) h
    · split at h
      · exact keep (fixed?_length h) rfl
      · split at h
        · split at h
          · refine keep (Nat.le_trans (braced?_length h) ?_) rfl
            simp
          · exact keep (fixed?_length h) rfl
        · split at h
          · split at h
            · exact keep (by simp) h
            · exact keep (Nat.le_refl _) h
          · split at h
            · exact keep (Nat.le_refl _) h
            · split at h
              · exact keep (Nat.le_refl _) h
              · split at h
                · cases h
                · exact keep (Nat.le_refl _) h

/-- The value of the text between quotes, or nothing if an escape in it is malformed. -/
def decode? (cs : List Char) : Option (List Char) :=
  match cs with
  | [] => some []
  | c :: cs =>
    if c == '\\' then
      match _h : read? cs with
      | none => none
      | some (ds, rest) => (decode? rest).map (ds ++ ·)
    else (decode? cs).map (c :: ·)
termination_by cs.length
decreasing_by
  · have := read?_length ‹_›
    simp only [List.length_cons]
    omega
  · simp

@[simp] theorem decode?_nil : decode? [] = some [] := by
  rw [decode?]

theorem decode?_plain {c : Char} (hc : c ≠ '\\') (cs : List Char) :
    decode? (c :: cs) = (decode? cs).map (c :: ·) := by
  rw [decode?, if_neg (by simpa using hc)]

theorem decode?_backslash (cs : List Char) :
    decode? ('\\' :: cs) = (read? cs).bind fun read => (decode? read.2).map (read.1 ++ ·) := by
  rw [decode?, if_pos (by decide)]
  split
  · rename_i hnone
    rw [hnone, Option.bind_none]
  · rename_i ds rest hsome
    rw [hsome, Option.bind_some]

end Ambient.Escape

namespace Ambient

/-- The value of a string literal whose text between the quotes is `raw`. -/
def unescape? (raw : String) : Option String := (Escape.decode? raw.toList).map String.ofList

end Ambient
