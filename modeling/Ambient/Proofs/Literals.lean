import Ambient.Binding.Name
import Ambient.Grammar.Literal
/-!
# String literals

A text written as a string literal is one token, whatever comes behind it (`Lexeme.read_quoted`),
and the value of that token is the text (`decode?_unquote_quoted`).
-/

namespace Ambient

/-- A character is written as itself or, behind a backslash, as the letter of an escape for it. -/
theorem Name.escape_cases (c : Char) :
    (∃ d, escape c = ['\\', d] ∧ ∀ cs, Escape.read? (d :: cs) = some ([c], cs)) ∨
      escape c = [c] ∧ c ≠ '"' ∧ c ≠ '\\' ∧ c ≠ '\n' := by
  unfold escape
  split
  · rename_i h
    obtain rfl := eq_of_beq h
    exact .inl ⟨'"', rfl, fun _ => rfl⟩
  split
  · rename_i h
    obtain rfl := eq_of_beq h
    exact .inl ⟨'\\', rfl, fun _ => rfl⟩
  split
  · rename_i h
    obtain rfl := eq_of_beq h
    exact .inl ⟨'n', rfl, fun _ => rfl⟩
  split
  · rename_i h
    obtain rfl := eq_of_beq h
    exact .inl ⟨'r', rfl, fun _ => rfl⟩
  split
  · rename_i h
    obtain rfl := eq_of_beq h
    exact .inl ⟨'t', rfl, fun _ => rfl⟩
  · exact .inr ⟨rfl, by simp_all⟩

theorem Lexeme.stringTail_escape (cs rest : List Char) :
    stringTail '"' (cs.flatMap Name.escape ++ '"' :: rest)
      = (.closed, cs.flatMap Name.escape ++ ['"'], rest) := by
  induction cs with
  | nil => simp [stringTail]
  | cons c cs ih =>
    rw [List.flatMap_cons]
    rcases Name.escape_cases c with ⟨d, hescape, -⟩ | ⟨hescape, hquote, hbackslash, hnewline⟩
    · simp [hescape, stringTail, ih]
    · rw [hescape, List.append_assoc, List.singleton_append, stringTail]
      · simp [hquote, hnewline, ih]
      · exact fun h => absurd h hbackslash
      · exact fun _ _ h => absurd h hbackslash

theorem Lexeme.read_quoted (cs rest : List Char) :
    read (Name.quoted cs ++ rest) = ⟨.literalString, Name.quoted cs, rest, none⟩ := by
  have htail := stringTail_escape cs rest
  simp only [Name.quoted, List.cons_append, List.append_assoc, List.nil_append]
  rw [read, if_neg (by decide), if_neg (by simp), if_pos (by decide), string, htail]

theorem Escape.decode?_escape (cs : List Char) :
    decode? (cs.flatMap Name.escape) = some cs := by
  induction cs with
  | nil => exact decode?_nil
  | cons c cs ih =>
    rw [List.flatMap_cons]
    rcases Name.escape_cases c with ⟨d, hescape, hread⟩ | ⟨hescape, -, hbackslash, -⟩
    · rw [hescape, List.cons_append, List.singleton_append, decode?_backslash, hread]
      simp [ih]
    · rw [hescape, List.singleton_append, decode?_plain hbackslash, ih, Option.map_some]

theorem decode?_unquote_quoted (cs : List Char) :
    Escape.decode? (Parser.unquote (Name.quoted cs)) = some cs := by
  have hunquote : Parser.unquote (Name.quoted cs) = cs.flatMap Name.escape := by
    simp [Parser.unquote, Name.quoted]
  rw [hunquote, Escape.decode?_escape]

end Ambient
