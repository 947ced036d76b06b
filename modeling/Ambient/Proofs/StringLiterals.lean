import Ambient.Proofs.FacingStatements
import Ambient.Proofs.Layout
/-!
# String literals from source text to bindings

A text that is written as a string literal is one token of the source, wherever it ends, with the
text as its value; in the bindings the text is written as the same literal. So the name of a module
survives being compiled, whatever characters it has (`stringLiteral_survives`). The name of a member
does so unless it starts with a bracket: then it is taken for a computed name
(`quotedMember_bound_or_refused`).
-/

namespace Ambient

open Compiled (Alike)

/-- A text as a string literal. -/
def stringLiteral (value : String) : String := String.ofList (Name.quoted value.toList)

@[simp]
theorem toList_stringLiteral (value : String) :
    (stringLiteral value).toList = Name.quoted value.toList := String.toList_ofList

theorem Compiled.Alike.eq_ok {α : Type} {x : Compiled α} {a : α} (h : Alike Eq x (.ok a)) :
    x = .ok a := by
  cases h with
  | ok h => rw [h]

theorem Compiled.Alike.eq_error {α : Type} {x : Compiled α} {problem : Problem} {span : Span}
    (h : Alike Eq x (.error ⟨problem, span⟩)) : ∃ span, x = .error ⟨problem, span⟩ := by
  cases h with
  | error => exact ⟨_, rfl⟩

/-! ## Reading literals -/

theorem next_stringLiteral (value rest : String) :
    (Scanner.ofSource (stringLiteral value ++ rest)).next =
      (⟨.literalString, (stringLiteral value).toList, ⟨0, (stringLiteral value).utf8ByteSize⟩,
          false, none⟩,
        ⟨(stringLiteral value).utf8ByteSize, rest.toList⟩) := by
  have hrest : (Scanner.ofSource (stringLiteral value ++ rest)).rest
      = Name.quoted value.toList ++ rest.toList := by
    simp [Scanner.ofSource]
  have hsolid := isSolid_quoted value.toList rest.toList
  rw [Scanner.next_eq_place (hrest ▸ hsolid), hrest, Lexeme.read_quoted, ← width_toList]
  simp [Scanner.place, Scanner.ofSource]

theorem Parser.goes_string {s : Scanner} {i : Nat} (value : List Char)
    (hkind : (s.token i).kind = .literalString) (htext : (s.token i).text = Name.quoted value) :
    Goes s i (s.succ i) string (String.ofList value) := by
  have hrequire : Goes s i (s.succ i) (require .literalString) (s.token i) := by
    refine .bind .consume ?_
    rw [if_pos (by simp [hkind])]
    exact .pure _
  have hvalue : Goes s i (s.succ i) stringWithSpan ((s.token i).span, String.ofList value) := by
    refine .bind hrequire ?_
    rw [htext, decode?_unquote_quoted]
    exact .pure _
  exact .bind hvalue (.pure _)

theorem string_stringLiteral (value rest : String) :
    ∃ b, Parser.string (Buffer.ofSource (stringLiteral value ++ rest)) = .ok value b := by
  have htoken : (Scanner.ofSource (stringLiteral value ++ rest)).token 0 = _ :=
    congrArg Prod.fst (next_stringLiteral value rest)
  obtain ⟨b, hrun, -⟩ := Parser.goes_string value.toList (by rw [htoken])
    (by rw [htoken, toList_stringLiteral]) _ (Buffer.tracks_ofSource _).toStands
  rw [String.ofList_toList] at hrun
  exact ⟨b, hrun⟩

theorem unescape?_stringLiteral (value : String) :
    ∃ body, stringLiteral value = "\"" ++ body ++ "\"" ∧ unescape? body = some value := by
  refine ⟨String.ofList (value.toList.flatMap Name.escape), ?_, ?_⟩
  · apply String.ext
    simp [Name.quoted]
  · simp [unescape?, Escape.decode?_escape]

theorem stringLiteral_injective {value other : String}
    (h : stringLiteral value = stringLiteral other) : value = other := by
  have hquoted : Name.quoted value.toList = Name.quoted other.toList := by
    simpa using congrArg String.toList h
  have hdecoded := decode?_unquote_quoted value.toList
  rw [hquoted, decode?_unquote_quoted] at hdecoded
  exact (String.toList_inj.1 (Option.some.inj hdecoded)).symm

/-! ## Names of modules -/

/-- A reference to the type `string`. -/
def stringType : TypeExpr := .reference .nowhere (.identifier "string") none

theorem accepts_stringType (room : Nat) : (Level.ofRoom (room + 1)).Accepts stringType :=
  Level.accepts_ofRoom (.intro (by decide) (by simp [stringType, TypeExpr.beside])
    (by simp [stringType, TypeExpr.within]))

/-- A file that declares a variable in a module of this name. -/
def moduleSource (name : String) : String :=
  "declare module " ++ stringLiteral name ++ " \x7b var x: string; \x7d"

/-- The words of a variable `x` of type `string`. -/
def variableWords : List Word :=
  Kind.kwVar.word :: .ofName "x" :: (leadWords .colon (some stringType) ++ [Kind.semicolon.word])

theorem written_moduleSource (name : String) : Written (moduleSource name).toList
    (Kind.kwDeclare.word :: Kind.kwModule.word :: .ofString name :: Kind.braceOpen.word ::
      (variableWords ++ [Kind.braceClose.word])) := by
  have hsource : (moduleSource name).toList = Kind.kwDeclare.spelling ++ ' ' ::
      (Kind.kwModule.spelling ++ ' ' ::
        (Name.quoted name.toList ++ " \x7b var x: string; \x7d".toList)) := by
    unfold moduleSource
    simp only [String.toList_append, toList_stringLiteral, List.append_assoc]
    rfl
  rw [hsource]
  refine .fixed (by decide) (.fixed (by decide) (.quoted _ ?_))
  exact written_of_isWritten (by decide)

/-- The only binding of the file. -/
def moduleExtern (name : String) : Extern :=
  { moduleName := some name
    isDefault := false
    name := "x"
    type := .named "string"
    isGetter := false
    isVariadic := false }

theorem bindingsOf_moduleSource (name : String) :
    bindingsOf (moduleSource name) = .ok [.external (moduleExtern name)] := by
  have hbody : Parser.Leaves (variableWords ++ [Kind.braceClose.word]) [Kind.braceClose.word]
      (Parser.blockBody Level.ofRoom maxNesting) (eraseStatements · = [⟨.nowhere,
        .ofVariable ⟨.nowhere, .none, .asVar, .nowhere, "x", some stringType⟩⟩]) := by
    refine (Parser.leaves_statements_single (by decide) rfl (by decide)
      (Parser.leaves_variableStatement "x" (some stringType) ?_)).mono fun ss hss => ?_
    · simpa using accepts_stringType _
    · obtain ⟨s, rfl, hs⟩ := hss
      exact congrArg (List.cons · []) hs
  have halike := bindingsOf_of_written (written_moduleSource name) (by simp [headKind, Kind.word])
    (Parser.leaves_moduleStatement hbody)
  exact halike.eq_ok

theorem chars_string (tight : Bool) : (Ty.named "string").chars tight = "string".toList := by
  have hpath : Name.typePath "string" = "string".toList := by decide
  exact hpath

theorem chars_moduleExtern (name : String) : (moduleExtern name).chars =
    "external x : string = \"x\" [@@bs.module ".toList ++ (stringLiteral name).toList
      ++ "]".toList := by
  have hname : Name.lowerChars "x".toList = "x".toList := by decide
  have hquoted : Name.quoted ['x'] = "\"x\"".toList := by decide
  unfold Extern.chars Extern.attribute Extern.sourceName moduleExtern
  dsimp only
  rw [hname, chars_string, toList_stringLiteral]
  simp [hquoted]

theorem print_moduleExtern (indent : Nat) (filename name : String) :
    Layout.print ⟨indent, false⟩ filename [.external (moduleExtern name)] =
      "external x : string = \"x\" [@@bs.module " ++ stringLiteral name ++ "]" ++ "\n" := by
  apply String.ext
  simp only [Layout.print, Layout.printChars, Item.linesAll, Item.lines, chars_moduleExtern]
  simp [Layout.lineChars]

/-- A text written as a string literal is read as one token with the text as its value, whatever
comes behind it. As the name of a module it is found again in the only line of the bindings. -/
theorem stringLiteral_survives (value : String) :
    (∀ rest : String,
      (Scanner.ofSource (stringLiteral value ++ rest)).next =
        (⟨.literalString, (stringLiteral value).toList, ⟨0, (stringLiteral value).utf8ByteSize⟩,
            false, none⟩,
          ⟨(stringLiteral value).utf8ByteSize, rest.toList⟩) ∧
      ∃ b, Parser.string (Buffer.ofSource (stringLiteral value ++ rest)) = .ok value b) ∧
    (∃ body, stringLiteral value = "\"" ++ body ++ "\"" ∧ unescape? body = some value) ∧
    (∀ (indent : Nat) (filename : String), ∃ line : String,
      compile ⟨indent, false⟩ filename (moduleSource value) = .ok (line ++ "\n") ∧
      line = "external x : string = \"x\" [@@bs.module " ++ stringLiteral value ++ "]" ∧
      '\n' ∉ line.toList) ∧
    ∀ other, stringLiteral other = stringLiteral value ↔ other = value := by
  refine ⟨fun rest => ⟨next_stringLiteral value rest, string_stringLiteral value rest⟩,
    unescape?_stringLiteral value, fun indent filename => ?_, fun other => ?_⟩
  · refine ⟨_, ?_, rfl, ?_⟩
    · rw [compile_of_bindingsOf (bindingsOf_moduleSource value), print_moduleExtern]
    · simp only [String.toList_append, ← chars_moduleExtern]
      exact Extern.newline_not_mem_chars _
  · exact ⟨stringLiteral_injective, congrArg stringLiteral⟩

/-! ## Names of members -/

/-- A file that declares an interface with one member, whose name is written as a literal. -/
def memberSource (key : String) : String :=
  "declare interface A \x7b " ++ stringLiteral key ++ ": string; \x7d"

/-- The members of the interface. -/
def memberOf (key : String) : List Member := [.property .nowhere false key false (some stringType)]

theorem written_memberSource (key : String) : Written (memberSource key).toList
    (Kind.kwDeclare.word :: Kind.kwInterface.word :: .ofName "A" :: Kind.braceOpen.word ::
      (memberWords (memberOf key) ++ [Kind.braceClose.word])) := by
  have hsource : (memberSource key).toList = Kind.kwDeclare.spelling ++ ' ' ::
      (Kind.kwInterface.spelling ++ ' ' :: ("A".toList ++ ' ' ::
        (Kind.braceOpen.spelling ++ ' ' ::
          (Name.quoted key.toList ++ ": string; \x7d".toList)))) := by
    unfold memberSource
    simp only [String.toList_append, toList_stringLiteral, List.append_assoc]
    rfl
  have hname : (Word.ofName "A").Spelled := Spelt.ofName (by decide)
  rw [hsource]
  refine .fixed (by decide) (.fixed (by decide) (.spelled hname (.fixed (by decide)
    (.quoted _ ?_))))
  exact written_of_isWritten (by decide)

theorem bindMembers_memberOf {scope : Scope} (key : String)
    (hstring : stringType.bind scope = .ok (.named "string")) :
    bindMembers scope [] (memberOf key) =
      do return [← bindField .nowhere key false (.named "string")] := by
  rw [memberOf, bindMembers, Member.bind, bindRequired, hstring]
  change (bindField .nowhere key false (.named "string") >>= _) = _
  generalize bindField .nowhere key false (.named "string") = made
  cases made with
  | ok field => rfl
  | error e => rfl

theorem bindingsOf_memberSource (key : String) :
    Alike Eq (bindingsOf (memberSource key))
      do return [.submodule "A" (interfaceItems []
        [← bindField .nowhere key false (.named "string")])] := by
  have halike := bindingsOf_of_written (written_memberSource key) (by simp [headKind, Kind.word])
    (Parser.leaves_interfaceStatement ?_)
  · have hcompile : Interface.compile .prelude
        ⟨.nowhere, .none, .nowhere, "A", none, [], eraseMembers (memberOf key)⟩ = do
          let fields ←
            bindMembers ((Scope.prelude.push (.interface "A" 0)).inInterface "A") [] (memberOf key)
          return (.submodule "A" (interfaceItems [] fields), .interface "A" 0) := by
      rw [Interface.compile, if_pos (show Letter.startsUpper "A" by decide)]
      rfl
    rw [bindMembers_memberOf key rfl] at hcompile
    rw [compileStatements, Statement.compile, Declaration.compile, hcompile] at halike
    generalize bindField .nowhere key false (.named "string") = made at halike ⊢
    cases made with
    | ok field => exact halike
    | error e => exact halike
  · intro t ht
    obtain rfl : t = stringType := by simpa [memberOf, Member.types] using ht
    exact accepts_stringType _

/-- The bindings of the interface: its own type with one field, and the getter of the field. -/
def memberItems (key : String) : List Item :=
  [.submodule "A"
    [.typeDeclaration
      { isNonrec := false
        name := "t"
        parameters := []
        body := .object [⟨key, .named "string"⟩] },
     .external
      { moduleName := none
        isDefault := false
        name := key
        type := .arrow [] [.named "t"] (.named "string")
        isGetter := true
        isVariadic := false }]]

theorem bindingsOf_memberSource_bound {key : String} (h : key.toList.head? ≠ some '[') :
    bindingsOf (memberSource key) = .ok (memberItems key) := by
  have halike := bindingsOf_memberSource key
  rw [bindField, if_neg h] at halike
  exact halike.eq_ok

theorem bindingsOf_memberSource_refused {key : String} (h : key.toList.head? = some '[') :
    ∃ span, bindingsOf (memberSource key) = .error ⟨.unsupportedMember .computedName, span⟩ := by
  have halike := bindingsOf_memberSource key
  rw [bindField, if_pos h] at halike
  exact halike.eq_error

/-- The text of the bindings, in which the interface is indented by `margin`. -/
def memberText (margin key : String) : String :=
  "module A = struct\n" ++
    margin ++ "type t = < " ++ lowerIdent key ++ " : string > Js.t\n" ++
    margin ++ "external " ++ lowerIdent key ++ " : t -> string = " ++ stringLiteral key ++
      " [@@bs.get]\n" ++
  "end\n"

theorem chars_memberType (key : String) :
    TypeDeclaration.chars ⟨false, "t", [], .object [⟨key, .named "string"⟩]⟩ =
      "type t = < ".toList ++ (lowerIdent key).toList ++ " : string > Js.t".toList := by
  have hname : Name.lowerChars "t".toList = "t".toList := by decide
  have hbody : (Ty.object [⟨key, .named "string"⟩]).chars false = "< ".toList
      ++ (Name.lowerChars key.toList ++ " : ".toList ++ (Ty.named "string").chars false)
      ++ " > Js.t".toList := rfl
  unfold TypeDeclaration.chars TypeDeclaration.parameterChars
  dsimp only
  rw [hname, hbody, chars_string]
  simp [lowerIdent]

theorem chars_memberGetter (key : String) :
    Extern.chars ⟨none, false, key, .arrow [] [.named "t"] (.named "string"), true, false⟩ =
      "external ".toList ++ (lowerIdent key).toList ++ " : t -> string = ".toList
        ++ (stringLiteral key).toList ++ " [@@bs.get]".toList := by
  have hself : (Ty.named "t").chars true = "t".toList := by
    have hpath : Name.typePath "t" = "t".toList := by decide
    exact hpath
  have htype : (Ty.arrow [] [.named "t"] (.named "string")).chars false =
      ((Ty.named "t").chars true ++ " -> ".toList ++ []) ++ (Ty.named "string").chars true := rfl
  unfold Extern.chars Extern.attribute Extern.sourceName
  dsimp only
  rw [htype, hself, chars_string]
  simp [lowerIdent]

theorem print_memberItems (indent : Nat) (filename key : String) :
    Layout.print ⟨indent, false⟩ filename (memberItems key) =
      memberText (String.ofList (List.replicate indent ' ')) key := by
  have hmodule : Name.moduleChars "A".toList = "A".toList := by decide
  apply String.ext
  unfold memberText memberItems
  simp only [Layout.print, Layout.printChars, Item.linesAll, Item.lines, hmodule, chars_memberType,
    chars_memberGetter]
  simp [Layout.lineChars]

/-- A member whose name is written as a literal is bound under this name, unless the name starts
with a bracket. -/
theorem quotedMember_bound_or_refused (key : String) :
    key.toList.head? ≠ some '[' ∧
        bindingsOf (memberSource key) = .ok (memberItems key) ∧
        (∀ (indent : Nat) (filename : String),
          compile ⟨indent, false⟩ filename (memberSource key) =
            .ok (memberText (String.ofList (List.replicate indent ' ')) key)) ∨
      key.toList.head? = some '[' ∧
        ∃ span,
          bindingsOf (memberSource key) = .error ⟨.unsupportedMember .computedName, span⟩ := by
  by_cases h : key.toList.head? = some '['
  · exact .inr ⟨h, bindingsOf_memberSource_refused h⟩
  · have hbound := bindingsOf_memberSource_bound h
    refine .inl ⟨h, hbound, fun indent filename => ?_⟩
    rw [compile_of_bindingsOf hbound, print_memberItems]

/-- The name `[x` is not bound. -/
theorem quotedMember_refused_bracket : ∃ span,
    bindingsOf (memberSource "[x") = .error ⟨.unsupportedMember .computedName, span⟩ :=
  bindingsOf_memberSource_refused (by decide)

end Ambient
