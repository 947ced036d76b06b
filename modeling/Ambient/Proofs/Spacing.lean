import Ambient.Proofs.Coverage
import Mathlib.Tactic.MkIffOfInductiveProp
/-!
# Spacing and comments do not matter

Two source texts with the same visible tokens, whatever lies between them, are parsed into the same
syntax tree up to spans and compiled to the same bindings, or both are refused for the same reason
(`spacing_irrelevant`). The one thing outside the visible tokens that the parser looks at is whether
a line break comes before the end of the text, and all it decides is how a last member without a
closing brace is reported (`cause_of_unclosed_interface`).
-/

namespace Ambient

/-! ## Visible tokens -/

/-- The source text is scanned to its end `last`, and none of the tokens before is invalid. None of
them is without text either, since the scanner does not get past such a token. -/
@[mk_iff]
structure Lexed (source : String) (ts : List Token) (last : Token) : Prop where
  tokens : tokenize source = ts ++ [last]
  ended : last.kind = .endOfFile
  valid : ∀ t ∈ ts, t.kind ≠ .invalid

instance (source : String) (ts : List Token) (last : Token) : Decidable (Lexed source ts last) :=
  decidable_of_iff' _ (lexed_iff source ts last)

/-- What there is to a token besides its place. -/
def Token.visible (t : Token) : Kind × List Char × Bool := (t.kind, t.text, t.newlineBefore)

namespace Lexed

variable {source a b : String} {ts us : List Token} {last last' : Token}

theorem eq_token (h : Lexed source ts last) :
    (Scanner.ofSource source).EndsAt ts.length ∧
      ts = (List.range ts.length).map (Scanner.ofSource source).token ∧
      last = (Scanner.ofSource source).token ts.length := by
  have hget : (tokenize source)[ts.length]? = some last := by simp [h.tokens]
  have hlength : ts.length < (tokenize source).length := by simp [h.tokens]
  rw [tokenize, Scanner.getElem?_tokens _ _ hlength] at hget
  have hlast := Option.some.inj hget
  obtain ⟨n, hn⟩ := Scanner.exists_endsAt (hlast ▸ h.ended)
  obtain ⟨hts, -⟩ := List.append_inj' (h.tokens.symm.trans (tokenize_eq hn)) rfl
  obtain rfl : ts.length = n := by simp [hts]
  exact ⟨hn, hts, hlast.symm⟩

theorem length_eq_of_visible (h : ts.map Token.visible = us.map Token.visible) :
    us.length = ts.length := by
  simpa using congrArg List.length h.symm

theorem visible_eq (ha : Lexed a ts last) (hb : Lexed b us last')
    (h : ts.map Token.visible = us.map Token.visible) {k : Nat} (hk : k < ts.length) :
    ((Scanner.ofSource a).token k).visible = ((Scanner.ofSource b).token k).visible := by
  have hlength := length_eq_of_visible h
  rw [ha.eq_token.2.1, hb.eq_token.2.1, hlength, List.map_map, List.map_map] at h
  exact List.map_inj_left.1 h k (List.mem_range.2 hk)

theorem faultless (h : Lexed source ts last) {k : Nat} (hk : k ≤ ts.length) :
    ((Scanner.ofSource source).token k).fault = none := by
  obtain ⟨hends, hts, -⟩ := h.eq_token
  refine ((Scanner.ofSource source).reads_token k).faultless ?_
  rcases Nat.lt_or_eq_of_le hk with hlt | rfl
  · refine h.valid _ ?_
    rw [hts]
    exact List.mem_map.2 ⟨k, List.mem_range.2 hlt, rfl⟩
  · rw [hends.ended]
    decide

/-- Two source texts with the same visible tokens, side by side. -/
def twin (ha : Lexed a ts last) (hb : Lexed b us last')
    (h : ts.map Token.visible = us.map Token.visible) : Twin where
  left := Scanner.ofSource a
  right := Scanner.ofSource b
  stop := ts.length
  endsAt := ha.eq_token.1
  agree k hk := by
    have hlength := length_eq_of_visible h
    have hfault := (ha.faultless hk).trans (hb.faultless (hlength ▸ hk)).symm
    rcases Nat.lt_or_eq_of_le hk with hlt | rfl
    · have hvisible := ha.visible_eq hb h hlt
      simp only [Token.visible, Prod.mk.injEq] at hvisible
      obtain ⟨hkind, htext, hnewline⟩ := hvisible
      exact ⟨hkind, htext, hfault, fun _ => hnewline⟩
    -- at the end nothing is left to differ but the line break
    · have hleft := ha.eq_token.1.ended
      have hright := hb.eq_token.1.ended
      rw [hlength] at hright
      exact ⟨hleft.trans hright.symm,
        (((Scanner.ofSource a).reads_token _).ended hleft).1.trans
          (((Scanner.ofSource b).reads_token _).ended hright).1.symm,
        hfault, fun hne => absurd hleft hne⟩

theorem sameEnd_twin (ha : Lexed a ts last) (hb : Lexed b us last')
    (h : ts.map Token.visible = us.map Token.visible) :
    (ha.twin hb h).SameEnd ↔ last.newlineBefore = last'.newlineBefore := by
  have hright := hb.eq_token.2.2
  rw [length_eq_of_visible h] at hright
  change ((Scanner.ofSource a).token ts.length).newlineBefore
    = ((Scanner.ofSource b).token ts.length).newlineBefore ↔ _
  rw [← ha.eq_token.2.2, ← hright]

end Lexed

/-! ## Parsing and compiling -/

/-- Both files parse and differ in their spans only, or neither parses, for the same cause and at a
token of the same kind. -/
def ParsesAlike (sameEnd : Prop) : Except SyntaxError File → Except SyntaxError File → Prop
  | .ok f, .ok f' => f.erase = f'.erase
  | .error e, .error e' => e.Alike sameEnd e'
  | _, _ => False

/-- Both problems are syntax errors, or they are the same. -/
inductive Problem.SameKind : Problem → Problem → Prop
  | malformed (ds ds' : List Diagnostic) : SameKind (.malformed ds) (.malformed ds')
  | refl (problem : Problem) : SameKind problem problem

/-- Both files have the same bindings, or neither has any, for a problem of the same kind. -/
def CompilesAlike : Compiled (List Item) → Compiled (List Item) → Prop
  | .ok items, .ok items' => items = items'
  | .error e, .error e' => e.problem.SameKind e'.problem
  | _, _ => False

theorem compilesAlike_of_erase_eq {ss ss' : List Statement}
    (h : eraseStatements ss = eraseStatements ss') :
    CompilesAlike (do return (← compileStatements .prelude ss).1)
      (do return (← compileStatements .prelude ss').1) := by
  have halike : Compiled.Alike Eq (do return (← compileStatements .prelude ss).1)
      (do return (← compileStatements .prelude ss').1) :=
    (compileStatements_alike_of_erase_eq h).bind_eq fun _ => .ok rfl
  revert halike
  generalize (do return (← compileStatements .prelude ss).1 : Compiled (List Item)) = x
  generalize (do return (← compileStatements .prelude ss').1 : Compiled (List Item)) = y
  rintro (heq | _)
  · exact heq
  · exact .refl _

/-- Source texts with the same visible tokens are parsed alike and compiled alike. -/
theorem spacing_irrelevant {a b : String} {ts us : List Token} {last last' : Token}
    (ha : Lexed a ts last) (hb : Lexed b us last')
    (h : ts.map Token.visible = us.map Token.visible) :
    ParsesAlike (last.newlineBefore = last'.newlineBefore) (parse a) (parse b) ∧
      CompilesAlike (bindingsOf a) (bindingsOf b) := by
  rw [← propext (ha.sameEnd_twin hb h)]
  unfold bindingsOf
  rcases Twin.parse_parse (T := ha.twin hb h) rfl rfl with
    ⟨f, f', hf, hf', -, -, htiles⟩ | ⟨e, e', he, he', halike⟩
  · have herase := (htiles.imp fun _ _ _ _ h => h.1).same.statements.2
    rw [hf, hf']
    exact ⟨congrArg (File.mk .nowhere) herase, compilesAlike_of_erase_eq herase⟩
  · rw [he, he']
    exact ⟨halike, .malformed _ _⟩

/-- The source text `commented` without its comments and spaces. -/
def uncommented : String := "declare var x:string;\n;interface I{f():I}"

theorem spacing_irrelevant_commented :
    ∃ ts us last last', Lexed commented ts last ∧ Lexed uncommented us last' ∧
      ts.map Token.visible = us.map Token.visible ∧ last.newlineBefore ≠ last'.newlineBefore ∧
      ParsesAlike (last.newlineBefore = last'.newlineBefore) (parse commented)
        (parse uncommented) ∧
      CompilesAlike (bindingsOf commented) (bindingsOf uncommented) := by
  have hlexed : Lexed commented (tokenize commented).dropLast
        ⟨.endOfFile, [], ⟨60, 60⟩, true, none⟩ ∧
      Lexed uncommented (tokenize uncommented).dropLast
        ⟨.endOfFile, [], ⟨41, 41⟩, false, none⟩ ∧
      (tokenize commented).dropLast.map Token.visible
        = (tokenize uncommented).dropLast.map Token.visible := by decide +kernel
  obtain ⟨ha, hb, hvisible⟩ := hlexed
  exact ⟨_, _, _, _, ha, hb, hvisible, by decide, spacing_irrelevant ha hb hvisible⟩

/-! ## A line break before the end -/

/-- Why a source text does not parse. -/
def syntaxErrorOf (source : String) : Option SyntaxError :=
  match parse source with
  | .ok _ => none
  | .error e => some e

theorem parse_eq_error {source : String} {e : SyntaxError} (h : syntaxErrorOf source = some e) :
    parse source = .error e := by
  unfold syntaxErrorOf at h
  split at h
  · cases h
  · rename_i hparse
    rw [hparse, Option.some.inj h]

/-- An interface that is not closed behind its last member. -/
def unclosed : String := "interface A \x7b x"

/-- The same with a line break at the end. -/
def unclosedLine : String := "interface A \x7b x\n"

/-- The visible tokens alone do not determine the cause of a syntax error. -/
theorem cause_of_unclosed_interface :
    ∃ ts us last last' e e', Lexed unclosed ts last ∧ Lexed unclosedLine us last' ∧
      ts.map Token.visible = us.map Token.visible ∧
      parse unclosed = .error e ∧ parse unclosedLine = .error e' ∧
      e.cause = .requiredTokenNotFound .semicolon ∧ e'.cause = .expectedSyntax "member name" := by
  have hlexed : Lexed unclosed (tokenize unclosed).dropLast
        ⟨.endOfFile, [], ⟨15, 15⟩, false, none⟩ ∧
      Lexed unclosedLine (tokenize unclosedLine).dropLast
        ⟨.endOfFile, [], ⟨16, 16⟩, true, none⟩ ∧
      (tokenize unclosed).dropLast.map Token.visible
        = (tokenize unclosedLine).dropLast.map Token.visible := by decide +kernel
  have herrors : syntaxErrorOf unclosed
        = some ⟨.requiredTokenNotFound .semicolon, ⟨15, 15⟩, some .endOfFile⟩ ∧
      syntaxErrorOf unclosedLine
        = some ⟨.expectedSyntax "member name", ⟨16, 16⟩, some .endOfFile⟩ := by decide +kernel
  obtain ⟨ha, hb, hvisible⟩ := hlexed
  obtain ⟨he, he'⟩ := herrors
  exact ⟨_, _, _, _, _, _, ha, hb, hvisible, parse_eq_error he, parse_eq_error he', rfl, rfl⟩

end Ambient
