import Ambient.Proofs.Parsers
import Ambient.Proofs.Sites
import Ambient.Proofs.WordTokens
import Mathlib.Data.List.TakeWhile
/-!
# Declared names are words

A name token is spelled with characters of words, so it has no dot in it. Every buffer keeps this of
the tokens it has seen, and therefore the names of type aliases and interfaces in a file are words
(`isWord_of_parse`).
-/

namespace Ambient

/-- A name that is spelled with characters of words. -/
def IsWord (name : String) : Prop := ∀ c ∈ name.toList, isWordChar c

theorem IsWord.not_mem_dot {name : String} (h : IsWord name) : '.' ∉ name.toList := fun hc =>
  absurd (h '.' hc) (by decide)

/-! ## Tokens -/

/-- A token that is a word if its kind is that of a name. -/
def Token.IsSpelled (t : Token) : Prop := t.kind.isName → IsWord t.word

namespace Lexeme

/-- A lexeme that is a word if its kind is that of a name. -/
def IsSpelled (l : Lexeme) : Prop := l.kind.isName → ∀ c ∈ l.text, isWordChar c

theorem isSpelled_of_isName_eq_false {l : Lexeme} (h : l.kind.isName = false) : l.IsSpelled := by
  intro hname
  rw [h] at hname
  cases hname

theorem isSpelled_word (cs : List Char) : (word cs).IsSpelled := by
  intro _ c hc
  unfold word at hc
  split at hc
  · exact isWordChar_of_isPlainWordChar (List.mem_takeWhile_imp hc)
  · exact List.mem_takeWhile_imp hc

theorem isSpelled_read (cs : List Char) : (read cs).IsSpelled := by
  intro hname
  have hread : read cs = word cs := read_eq_word (Kind.isAnyWord_of_isName hname)
  rw [hread] at hname ⊢
  exact isSpelled_word cs hname

end Lexeme

theorem Scanner.isSpelled_next (s : Scanner) : s.next.1.IsSpelled := by
  have hplace : ∀ newline offset l, l.IsSpelled → (Scanner.place newline offset l).1.IsSpelled := by
    intro newline offset l hl hname c hc
    rw [Token.word, String.toList_ofList] at hc
    exact hl hname c hc
  unfold Scanner.next
  split
  · exact hplace _ _ _ (Lexeme.isSpelled_read _)
  · exact hplace _ _ _ (Lexeme.isSpelled_of_isName_eq_false rfl)

/-- A buffer that has seen spelled tokens only. -/
def Buffer.IsSpelled (b : Buffer) : Prop := ∀ t ∈ b.seen, t.IsSpelled

theorem Buffer.isSpelled_look {b : Buffer} (h : b.IsSpelled) :
    b.look.1.IsSpelled ∧ b.look.2.IsSpelled := by
  unfold Buffer.look
  split
  · rename_i t ht
    exact ⟨h t (Array.mem_of_getElem? ht), h⟩
  · refine ⟨b.scanner.isSpelled_next, fun t ht => ?_⟩
    rcases Array.mem_push.1 ht with ht | rfl
    · exact h t ht
    · exact b.scanner.isSpelled_next

instance : Buffer.IsInvariant Buffer.IsSpelled :=
  .of_move (fun h => (Buffer.isSpelled_look h).2) fun _ h => h

/-! ## Declarations -/

/-- Whatever the declaration brings into scope somewhere, its name is a word. -/
def Declaration.HasWords (d : Declaration) : Prop :=
  ∀ v number, ∀ x ∈ d.sites v number, ∀ e, x.declared.entry = some e → IsWord e.name

theorem hasWords_sitesOf {ss : List Statement} (h : ∀ s ∈ ss, s.declaration.HasWords) (v : View)
    (number : Nat) : ∀ x ∈ sitesOf v ss number, ∀ e, x.declared.entry = some e → IsWord e.name := by
  induction ss generalizing v number with
  | nil =>
    intro x hx
    rw [sitesOf] at hx
    cases hx
  | cons s ss ih =>
    intro x hx
    rw [sitesOf] at hx
    rcases List.mem_append.1 hx with hx | hx
    · obtain ⟨span, d⟩ := s
      rw [Statement.sites] at hx
      exact h ⟨span, d⟩ (by simp) v number x hx
    · exact ih (fun s hs => h s (by simp [hs])) _ _ x hx

/-- Whether the declaration can hold others that items are made for. -/
def Declaration.isModule : Declaration → Bool
  | .ofModule .. => true
  | _ => false

theorem Declaration.hasWords {d : Declaration} (hentry : ∀ e, d.entry = some e → IsWord e.name)
    (hmodule : d.isModule = false) : d.HasWords := by
  intro v number x hx e he
  rw [Declaration.sites] at hx
  · obtain ⟨declared, hdeclared, rfl⟩ := List.mem_map.1 hx
    refine hentry e ?_
    rw [Declaration.entry, Option.mem_toList.1 hdeclared]
    exact he
  all_goals
    rintro span nameSpan name body rfl
    cases hmodule

theorem Declaration.hasWords_of_entry_eq_none {d : Declaration} (hentry : d.entry = none)
    (hmodule : d.isModule = false) : d.HasWords := by
  refine Declaration.hasWords (fun e he => ?_) hmodule
  rw [hentry] at he
  cases he

theorem Declaration.hasWords_of_isBare {d : Declaration} (h : d.isBare) : d.HasWords := by
  cases d <;> first | exact hasWords_of_entry_eq_none rfl rfl | cases h

theorem Declaration.hasWords_ofModule {span nameSpan : Span} {name : ModuleName}
    {body : Option (List Statement)} (h : ∀ ss ∈ body, ∀ s ∈ ss, s.declaration.HasWords) :
    (Declaration.ofModule span nameSpan name body).HasWords := by
  intro v number x hx e he
  cases name with
  | identifier =>
    rw [Declaration.sites] at hx
    obtain rfl := List.mem_singleton.1 hx
    cases he
  | string =>
    cases body with
    | some ss =>
      rw [Declaration.sites] at hx
      exact hasWords_sitesOf (h ss rfl) _ _ x hx e he
    | none =>
      rw [Declaration.sites] at hx
      · cases hx
      · rintro _ _ _ _ ⟨⟩
      · rintro _ _ _ _ ⟨⟩

/-! ## The grammar -/

namespace Parser

theorem gives_requireWhere (p : Kind → Bool) (what : String) :
    Gives Buffer.IsSpelled (requireWhere p what) fun t => t.IsSpelled ∧ p t.kind := by
  have hconsume : Gives Buffer.IsSpelled consume Token.IsSpelled := by
    constructor
    rintro b b' _ hb ⟨⟩
    exact (Buffer.isSpelled_look hb).1
  unfold requireWhere
  refine hconsume.bind fun t ht => ?_
  by_cases hp : p t.kind
  · rw [if_pos hp]
    exact .pure ⟨ht, hp⟩
  · rw [if_neg hp]
    exact .failWith

theorem gives_nameWithSpan : Gives Buffer.IsSpelled nameWithSpan fun x => IsWord x.2 := by
  unfold nameWithSpan
  exact (gives_requireWhere _ _).bind fun t ht => .pure (ht.1 ht.2)

theorem gives_typeAliasDeclaration (types : Level) [types.Keeps Buffer.IsSpelled]
    (exported : Export) :
    Gives Buffer.IsSpelled (typeAliasDeclaration types exported) Declaration.HasWords := by
  unfold typeAliasDeclaration
  refine .spanned (.behind fun _ => gives_nameWithSpan.bind fun x hname => ?_)
  obtain ⟨nameSpan, name⟩ := x
  refine .behind fun _ => .behind fun _ => .behind fun _ => .behind fun _ => .pure fun span => ?_
  refine Declaration.hasWords ?_ rfl
  rintro e ⟨⟩
  exact hname

theorem gives_interfaceDeclaration (types : Level) [types.Keeps Buffer.IsSpelled]
    (exported : Export) :
    Gives Buffer.IsSpelled (interfaceDeclaration types exported) Declaration.HasWords := by
  unfold interfaceDeclaration
  refine .spanned (.behind fun _ => gives_nameWithSpan.bind fun x hname => ?_)
  obtain ⟨nameSpan, name⟩ := x
  refine .behind fun _ => .behind fun _ => .behind fun _ => .pure fun span => ?_
  refine Declaration.hasWords ?_ rfl
  rintro e ⟨⟩
  exact hname

section

variable (types : Level) [types.Keeps Buffer.IsSpelled] (exported : Export)

theorem gives_variableDeclaration :
    Gives Buffer.IsSpelled (variableDeclaration types exported) Declaration.HasWords := by
  unfold variableDeclaration
  refine .spanned (.behind fun _ => .behind fun _ => .behind fun _ => .behind fun _ => ?_)
  exact .pure fun span => Declaration.hasWords_of_entry_eq_none rfl rfl

theorem gives_functionDeclaration :
    Gives Buffer.IsSpelled (functionDeclaration types exported) Declaration.HasWords := by
  unfold functionDeclaration
  refine .spanned (.behind fun _ => .behind fun _ => .behind fun _ => .behind fun _ => ?_)
  refine .behind fun _ => .behind fun _ => .pure fun span => ?_
  exact Declaration.hasWords_of_entry_eq_none rfl rfl

theorem gives_classDeclaration :
    Gives Buffer.IsSpelled (classDeclaration types exported) Declaration.HasWords := by
  unfold classDeclaration
  refine .spanned (.behind fun _ => .behind fun _ => .behind fun _ => .behind fun _ => ?_)
  refine .behind fun _ => .behind fun _ => .behind fun _ => .pure fun span => ?_
  exact Declaration.hasWords_of_entry_eq_none rfl rfl

end

section

variable {types : Level} [types.Keeps Buffer.IsSpelled] {body : Parser (List Statement)}
  [Keeps Buffer.IsSpelled body]

theorem gives_namespaceDeclaration (exported : Export) :
    Gives Buffer.IsSpelled (namespaceDeclaration body exported) Declaration.HasWords := by
  unfold namespaceDeclaration
  refine .spanned (.behind fun _ => .behind fun _ => .behind fun _ => .pure fun span => ?_)
  exact Declaration.hasWords_of_entry_eq_none rfl rfl

theorem gives_globalDeclaration :
    Gives Buffer.IsSpelled (globalDeclaration body) Declaration.HasWords := by
  unfold globalDeclaration
  exact .spanned (.behind fun _ => .behind fun _ => .pure fun span =>
    Declaration.hasWords_of_entry_eq_none rfl rfl)

-- The statements that `body` gives are the only ones whose words are not seen here.
variable (hbody : Gives Buffer.IsSpelled body fun ss => ∀ s ∈ ss, s.declaration.HasWords)

include hbody

theorem gives_moduleDeclaration :
    Gives Buffer.IsSpelled (moduleDeclaration body) Declaration.HasWords := by
  have hblock : Gives Buffer.IsSpelled (moduleDeclaration.moduleBody body) fun o =>
      ∀ ss ∈ o, ∀ s ∈ ss, s.declaration.HasWords := by
    unfold moduleDeclaration.moduleBody block
    refine .behind fun kind => .ite ?_ (.behind fun _ => .pure (by simp))
    refine .bind (.behind fun _ => hbody.bind fun ss hss => .behind fun _ => .pure hss) ?_
    rintro ss hss
    exact .pure (by rintro _ ⟨⟩; exact hss)
  unfold moduleDeclaration
  refine .spanned (.behind fun _ => .behind fun _ => ?_)
  exact hblock.bind fun o ho => .pure fun span => Declaration.hasWords_ofModule ho

theorem givesDeclarations_hasWords :
    GivesDeclarations Buffer.IsSpelled types body Declaration.HasWords where
  bare _ hd := Declaration.hasWords_of_isBare hd
  ofModule := gives_moduleDeclaration hbody
  ofNamespace := gives_namespaceDeclaration
  ofGlobal := gives_globalDeclaration
  ofVariable := gives_variableDeclaration types
  ofFunction := gives_functionDeclaration types
  ofTypeAlias := gives_typeAliasDeclaration types
  ofInterface := gives_interfaceDeclaration types
  ofClass := gives_classDeclaration types

end

theorem gives_blockBody (types : Nat → Level) [∀ room, (types room).Keeps Buffer.IsSpelled]
    (room : Nat) :
    Gives Buffer.IsSpelled (blockBody types room) fun ss => ∀ s ∈ ss, s.declaration.HasWords := by
  induction room with
  | zero => exact .behind fun _ => .failWith
  | succ room ih => exact (givesDeclarations_hasWords ih).statements _

end Parser

/-- The names of the type aliases and interfaces of a file are words. -/
theorem isWord_of_parse {source : String} {file : File} (h : parse source = .ok file) {x : Site}
    (hx : x ∈ file.sites) {e : Entry} (he : x.declared.entry = some e) : IsWord e.name := by
  have hfile : Parser.Gives Buffer.IsSpelled (Parser.file Level.ofRoom maxNesting) fun file =>
      ∀ s ∈ file.body, s.declaration.HasWords := by
    unfold Parser.file
    refine ((Parser.givesDeclarations_hasWords (Parser.gives_blockBody _ _)).statements _).bind
      fun ss hss => ?_
    exact .behind fun _ => .behind fun _ => .pure hss
  unfold parse parseWithin at h
  split at h
  · rename_i hparse
    cases h
    have hstart : (Buffer.ofSource source).IsSpelled := by
      intro t ht
      simp [Buffer.ofSource] at ht
    exact hasWords_sitesOf (hfile.value hstart hparse) _ _ x hx e he
  · cases h

end Ambient
