import Ambient.Grammar.Type
import Ambient.Proofs.Spelling
/-!
# Types as text

`TypeExpr.render` writes a type with one space between its tokens and adds no parentheses.
`TypeExpr.Admissible` says when that is a type of the grammar: no operator stands where a tighter
one is needed, every name and number is a single token, and the type is not nested too deeply. Such
a type consists of well-spelled words (`TypeExpr.Admissible.spelt`).
-/

namespace Ambient

/-! ## The words of a type -/

/-- The name as a single word. -/
def Word.ofName (name : String) : Word := ⟨.identifier, name.toList⟩

/-- The text as a string literal. -/
def Word.ofString (value : String) : Word := ⟨.literalString, Name.quoted value.toList⟩

/-- The number with this text, which has no sign. -/
def Word.ofNumber (digits : List Char) : Word := ⟨.literalNumber, digits⟩

/-- Type parameters, parameters in parentheses, and what comes behind them. -/
def signatureWords (typeParameters : List Word) (parameters : List (List Word)) (back : List Word) :
    List Word :=
  typeParameters ++ (listWords .parenthesisOpen .parenthesisClose parameters ++ back)

/-- The words of a name that may be a dotted path. -/
def EntityName.words : EntityName → List Word
  | .identifier name => [.ofName name]
  | .qualified left right => left.words ++ [Kind.dot.word, .ofName right]

/-- The words of a number, of which a sign is one. -/
def numberWords : List Char → List Word
  | '-' :: digits => [Kind.hyphen.word, .ofNumber digits]
  | digits => [.ofNumber digits]

/-- The words of a literal. -/
def Literal.words : Literal → List Word
  | .string value => [.ofString value]
  | .number raw => numberWords raw.toList
  | .boolean value => [if value then Kind.literalTrue.word else Kind.literalFalse.word]

mutual

/-- The words of a type. -/
def TypeExpr.words : TypeExpr → List Word
  | .reference _ name arguments => name.words ++ argumentWords arguments
  | .literal _ value => value.words
  | .array _ readonly element =>
    markWords .kwReadonly readonly ++
      (element.words ++ [Kind.bracketOpen.word, Kind.bracketClose.word])
  | .tuple _ readonly elements =>
    markWords .kwReadonly readonly ++ listWords .bracketOpen .bracketClose (typesWords elements)
  | .union _ arms => joinWords .bar (typesWords arms)
  | .intersection _ arms => joinWords .ampersand (typesWords arms)
  | .function _ typeParameters parameters result =>
    signatureWords (typeParameterWords typeParameters) (parametersWords parameters)
      (Kind.equalsChevronRight.word :: result.words)
  | .constructor _ typeParameters parameters result =>
    Kind.kwNew.word :: signatureWords (typeParameterWords typeParameters)
      (parametersWords parameters) (Kind.equalsChevronRight.word :: result.words)
  | .object _ members => Kind.braceOpen.word :: (memberWords members ++ [Kind.braceClose.word])
  | .parenthesized _ inner =>
    Kind.parenthesisOpen.word :: (inner.words ++ [Kind.parenthesisClose.word])
  | .indexedAccess _ object index =>
    object.words ++ Kind.bracketOpen.word :: (index.words ++ [Kind.bracketClose.word])
  | .query _ name => Kind.kwTypeof.word :: name.words
  | .keyOf _ operand => Kind.kwKeyof.word :: operand.words
  | .this _ => [Kind.kwThis.word]

/-- The words of each type. -/
def typesWords : List TypeExpr → List (List Word)
  | [] => []
  | t :: ts => t.words :: typesWords ts

/-- The words of a type with a lead, if there is one. -/
def leadWords (lead : Kind) : Option TypeExpr → List Word
  | none => []
  | some t => lead.word :: t.words

/-- The words of type arguments, if there are any. -/
def argumentWords : Option (List TypeExpr) → List Word
  | none => []
  | some ts => listWords .chevronLeft .chevronRight (typesWords ts)

/-- The words of a type parameter. -/
def TypeParameter.words : TypeParameter → List Word
  | ⟨_, name, constraint, fallback⟩ =>
    .ofName name :: (leadWords .kwExtends constraint ++ leadWords .equals fallback)

/-- The words of each type parameter. -/
def typeParametersWords : List TypeParameter → List (List Word)
  | [] => []
  | p :: ps => p.words :: typeParametersWords ps

/-- The words of type parameters, if there are any. -/
def typeParameterWords : Option (List TypeParameter) → List Word
  | none => []
  | some ps => listWords .chevronLeft .chevronRight (typeParametersWords ps)

/-- The words of a parameter. -/
def Parameter.words : Parameter → List Word
  | ⟨_, name, optional, rest, type⟩ =>
    markWords .dotDotDot rest ++
      .ofName name :: (markWords .question optional ++ leadWords .colon type)

/-- The words of each parameter. -/
def parametersWords : List Parameter → List (List Word)
  | [] => []
  | p :: ps => p.words :: parametersWords ps

/-- The words of a member, without the semicolon behind it. -/
def Member.words : Member → List Word
  | .property _ readonly key optional type =>
    markWords .kwReadonly readonly ++
      .ofString key :: (markWords .question optional ++ leadWords .colon type)
  | .method _ key optional typeParameters parameters result =>
    .ofString key :: (markWords .question optional ++
      signatureWords (typeParameterWords typeParameters) (parametersWords parameters)
        (leadWords .colon result))
  | .call _ typeParameters parameters result =>
    signatureWords (typeParameterWords typeParameters) (parametersWords parameters)
      (leadWords .colon result)
  | .construct _ typeParameters parameters result =>
    Kind.kwNew.word :: signatureWords (typeParameterWords typeParameters)
      (parametersWords parameters) (leadWords .colon result)
  | .index _ readonly parameterName parameterType type =>
    markWords .kwReadonly readonly ++
      Kind.bracketOpen.word :: .ofName parameterName :: Kind.colon.word :: (parameterType.words ++
        Kind.bracketClose.word :: Kind.colon.word :: type.words)

/-- The words of members, with a semicolon behind each. -/
def memberWords : List Member → List Word
  | [] => []
  | m :: ms => m.words ++ Kind.semicolon.word :: memberWords ms

end

/-- The type as text. -/
def TypeExpr.render (t : TypeExpr) : String := String.ofList (spaced t.words)

theorem typesWords_eq_map (ts : List TypeExpr) : typesWords ts = ts.map TypeExpr.words := by
  induction ts with
  | nil => rfl
  | cons t ts ih => rw [typesWords, ih, List.map_cons]

theorem typeParametersWords_eq_map (ps : List TypeParameter) :
    typeParametersWords ps = ps.map TypeParameter.words := by
  induction ps with
  | nil => rfl
  | cons p ps ih => rw [typeParametersWords, ih, List.map_cons]

theorem parametersWords_eq_map (ps : List Parameter) :
    parametersWords ps = ps.map Parameter.words := by
  induction ps with
  | nil => rfl
  | cons p ps ih => rw [parametersWords, ih, List.map_cons]

/-! ## Types of the grammar -/

/-- How tightly the outermost operator of the type binds: `=>` loosest, then `|`, `&`, `keyof` and
`readonly`, and the types that are primary or end with brackets. -/
def TypeExpr.rank : TypeExpr → Nat
  | .function .. | .constructor .. => 0
  | .union .. => 1
  | .intersection .. => 2
  | .keyOf .. | .array _ true _ | .tuple _ true _ => 3
  | _ => 4

/-- The types in a type parameter. -/
def TypeParameter.types (p : TypeParameter) : List TypeExpr :=
  p.constraint.toList ++ p.fallback.toList

/-- The types in type parameters and parameters. -/
def signatureTypes (typeParameters : Option (List TypeParameter)) (parameters : List Parameter) :
    List TypeExpr :=
  (typeParameters.getD []).flatMap TypeParameter.types ++ parameters.flatMap (·.type.toList)

/-- The types in a member. -/
def Member.types : Member → List TypeExpr
  | .property _ _ _ _ type => type.toList
  | .method _ _ _ typeParameters parameters result | .call _ typeParameters parameters result
  | .construct _ typeParameters parameters result =>
    signatureTypes typeParameters parameters ++ result.toList
  | .index _ _ _ parameterType type => [parameterType, type]

/-- The types that are parts of the type on the same level of nesting. -/
def TypeExpr.beside : TypeExpr → List TypeExpr
  | .array _ false element => [element]
  | .union _ arms | .intersection _ arms => arms
  | .indexedAccess _ target _ => [target]
  | _ => []

/-- The types that are parts of the type one level of nesting further in. The operand of `readonly`
is the type without it. -/
def TypeExpr.within : TypeExpr → List TypeExpr
  | .reference _ _ arguments => arguments.getD []
  | .array span true element => [.array span false element]
  | .tuple span true elements => [.tuple span false elements]
  | .tuple _ false elements => elements
  | .function _ typeParameters parameters result
  | .constructor _ typeParameters parameters result =>
    signatureTypes typeParameters parameters ++ [result]
  | .object _ members => members.flatMap Member.types
  | .parenthesized _ inner => [inner]
  | .indexedAccess _ _ index => [index]
  | .keyOf _ operand => [operand]
  | _ => []

/-- The steps of a dotted path. -/
def EntityName.steps : EntityName → List String
  | .identifier name => [name]
  | .qualified left right => left.steps ++ [right]

/-- The names of type parameters and parameters. -/
def signatureNames (typeParameters : Option (List TypeParameter)) (parameters : List Parameter) :
    List String :=
  (typeParameters.getD []).map (·.name) ++ parameters.map (·.name)

/-- The names in a member, its key apart. -/
def Member.names : Member → List String
  | .property .. => []
  | .method _ _ _ typeParameters parameters _ | .call _ typeParameters parameters _
  | .construct _ typeParameters parameters _ => signatureNames typeParameters parameters
  | .index _ _ parameterName _ _ => [parameterName]

/-- The names in the type itself, not in the types that are parts of it. -/
def TypeExpr.names : TypeExpr → List String
  | .reference _ name _ | .query _ name => name.steps
  | .function _ typeParameters parameters _ | .constructor _ typeParameters parameters _ =>
    signatureNames typeParameters parameters
  | .object _ members => members.flatMap Member.names
  | _ => []

/-- Whether a text without a sign is a number. -/
def isNumeral (digits : List Char) : Bool :=
  isToken .literalNumber digits && Parser.numberFits digits

/-- Whether a text is a number, perhaps with a sign. -/
def isNumber : List Char → Bool
  | '-' :: digits => isNumeral digits
  | digits => isNumeral digits

/-- Whether the parts of the type bind tightly enough to stand in it without parentheses, and its
names and numbers are tokens. -/
def TypeExpr.isProper (t : TypeExpr) : Bool :=
  t.names.all (isToken .identifier ·.toList) &&
    match t with
    | .literal _ (.number raw) => isNumber raw.toList
    | .array _ false element => 4 ≤ element.rank
    | .union _ arms => 2 ≤ arms.length && arms.all (2 ≤ ·.rank)
    | .intersection _ arms => 2 ≤ arms.length && arms.all (3 ≤ ·.rank)
    | .indexedAccess _ target _ => 4 ≤ target.rank
    | .keyOf _ operand => 3 ≤ operand.rank
    | _ => true

/-- The type and all its parts are proper, and the type takes up no more than so many levels of
nesting. -/
inductive TypeExpr.Admissible : Nat → TypeExpr → Prop
  | intro {levels : Nat} {t : TypeExpr} : t.isProper →
    (∀ u ∈ t.beside, Admissible (levels + 1) u) → (∀ u ∈ t.within, Admissible levels u) →
    Admissible (levels + 1) t

/-- Checks that the type is admissible, going through at most `steps` parts of parts. -/
def TypeExpr.isAdmissible : Nat → Nat → TypeExpr → Bool
  | steps + 1, levels + 1, t =>
    t.isProper && t.beside.all (isAdmissible steps (levels + 1)) &&
      t.within.all (isAdmissible steps levels)
  | _, _, _ => false

theorem TypeExpr.admissible_of_isAdmissible {steps levels : Nat} {t : TypeExpr}
    (h : t.isAdmissible steps levels) : t.Admissible levels := by
  induction steps generalizing levels t with
  | zero => simp [isAdmissible] at h
  | succ steps ih =>
    cases levels with
    | zero => simp [isAdmissible] at h
    | succ levels =>
      simp only [isAdmissible, Bool.and_eq_true, List.all_eq_true] at h
      exact .intro h.1.1 (fun u hu => ih (h.1.2 u hu)) fun u hu => ih (h.2 u hu)

/-! ## Spelling -/

/-- All of the words are well spelled. -/
def Spelt (ws : List Word) : Prop := ∀ w ∈ ws, w.Spelled

namespace Spelt

theorem nil : Spelt [] := fun _ h => nomatch h

theorem cons {w : Word} {ws : List Word} (hw : w.Spelled) (hws : Spelt ws) : Spelt (w :: ws) :=
  List.forall_mem_cons.2 ⟨hw, hws⟩

theorem fixed {kind : Kind} (hkind : kind.spelling ≠ []) {ws : List Word} (hws : Spelt ws) :
    Spelt (kind.word :: ws) := cons (Kind.spelled_word hkind) hws

theorem append {vs ws : List Word} (hvs : Spelt vs) (hws : Spelt ws) : Spelt (vs ++ ws) :=
  List.forall_mem_append.2 ⟨hvs, hws⟩

theorem mark {kind : Kind} (hkind : kind.spelling ≠ []) (isSet : Bool) :
    Spelt (markWords kind isSet) := by
  cases isSet
  · exact nil
  · exact fixed hkind nil

theorem join {sign : Kind} (hsign : sign.spelling ≠ []) {items : List (List Word)}
    (hitems : ∀ item ∈ items, Spelt item) : Spelt (joinWords sign items) := by
  cases items with
  | nil => exact nil
  | cons item items =>
    refine append (hitems item (.head _)) fun w hw => ?_
    obtain ⟨other, hother, hw⟩ := List.mem_flatMap.1 hw
    exact fixed hsign (hitems other (.tail _ hother)) w hw

theorem list {opening closing : Kind} (hopening : opening.spelling ≠ [])
    (hclosing : closing.spelling ≠ []) {items : List (List Word)}
    (hitems : ∀ item ∈ items, Spelt item) : Spelt (listWords opening closing items) :=
  fixed hopening (append (join (by decide) hitems)
    (fixed hclosing nil))

theorem types {ts : List TypeExpr} (h : ∀ t ∈ ts, Spelt t.words) :
    ∀ item ∈ typesWords ts, Spelt item := by
  rw [typesWords_eq_map, List.forall_mem_map]
  exact h

theorem ofName {name : String} (h : isToken .identifier name.toList) : (Word.ofName name).Spelled :=
  Word.spelled_of_isToken h (by decide)

theorem ofNumber {digits : List Char} (h : isNumeral digits) : (Word.ofNumber digits).Spelled := by
  simp only [isNumeral, Bool.and_eq_true] at h
  exact Word.spelled_of_isToken h.1 (by decide)

theorem steps {name : EntityName} (h : ∀ step ∈ name.steps, isToken .identifier step.toList) :
    Spelt name.words := by
  induction name with
  | identifier name => exact cons (ofName (h name (by simp [EntityName.steps]))) nil
  | qualified left right ih =>
    have hparts := List.forall_mem_append.1 h
    exact append (ih hparts.1) (fixed (by decide)
      (cons (ofName (hparts.2 right (by simp))) nil))

theorem number {raw : List Char} (h : isNumber raw) : Spelt (numberWords raw) := by
  unfold isNumber at h
  unfold numberWords
  split
  · exact fixed (by decide) (cons (ofNumber h) nil)
  · split at h
    · simp_all
    · exact cons (ofNumber h) nil

theorem lead {kind : Kind} (hkind : kind.spelling ≠ []) {type : Option TypeExpr}
    (htype : ∀ t ∈ type.toList, Spelt t.words) : Spelt (leadWords kind type) := by
  cases type with
  | none => exact nil
  | some t => exact fixed hkind (htype t (by simp))

theorem signature {typeParameters : Option (List TypeParameter)} {parameters : List Parameter}
    {back : List Word} (htypes : ∀ t ∈ signatureTypes typeParameters parameters, Spelt t.words)
    (hnames : ∀ name ∈ signatureNames typeParameters parameters, isToken .identifier name.toList)
    (hback : Spelt back) :
    Spelt (signatureWords (typeParameterWords typeParameters) (parametersWords parameters)
      back) := by
  obtain ⟨htypes, htypes'⟩ := List.forall_mem_append.1 htypes
  obtain ⟨hnames, hnames'⟩ := List.forall_mem_append.1 hnames
  refine append ?_ (append (list (by decide) (by decide) ?_) hback)
  · cases typeParameters with
    | none => exact nil
    | some ps =>
      refine list (by decide) (by decide) ?_
      rw [typeParametersWords_eq_map, List.forall_mem_map]
      rintro ⟨span, name, constraint, fallback⟩ hp
      obtain ⟨hconstraint, hfallback⟩ := List.forall_mem_append.1 fun t ht =>
        htypes t (List.mem_flatMap.2 ⟨_, hp, ht⟩)
      exact cons (ofName (hnames name (List.mem_map_of_mem hp)))
        (append (lead (by decide) hconstraint) (lead (by decide) hfallback))
  · rw [parametersWords_eq_map, List.forall_mem_map]
    rintro ⟨span, name, optional, rest, type⟩ hp
    exact append (mark (by decide) _) (cons (ofName (hnames' name (List.mem_map_of_mem hp)))
      (append (mark (by decide) _) (lead (by decide) fun t ht =>
        htypes' t (List.mem_flatMap.2 ⟨_, hp, ht⟩))))

theorem member {m : Member} (htypes : ∀ t ∈ m.types, Spelt t.words)
    (hnames : ∀ name ∈ m.names, isToken .identifier name.toList) : Spelt m.words := by
  cases m with
  | property span readonly key optional type =>
    exact append (mark (by decide) _) (cons (Word.spelled_quoted _)
      (append (mark (by decide) _) (lead (by decide) htypes)))
  | method span key optional typeParameters parameters result =>
    obtain ⟨htypes, hresult⟩ := List.forall_mem_append.1 htypes
    exact cons (Word.spelled_quoted _) (append (mark (by decide) _)
      (signature htypes hnames (lead (by decide) hresult)))
  | call span typeParameters parameters result =>
    obtain ⟨htypes, hresult⟩ := List.forall_mem_append.1 htypes
    exact signature htypes hnames (lead (by decide) hresult)
  | construct span typeParameters parameters result =>
    obtain ⟨htypes, hresult⟩ := List.forall_mem_append.1 htypes
    exact fixed (by decide) (signature htypes hnames (lead (by decide) hresult))
  | index span readonly parameterName parameterType type =>
    exact append (mark (by decide) _) (fixed (by decide)
      (cons (ofName (hnames parameterName (by simp [Member.names])))
        (fixed (by decide) (append (htypes parameterType (by simp [Member.types]))
          (fixed (by decide) (fixed (by decide)
            (htypes type (by simp [Member.types]))))))))

theorem members {ms : List Member} (htypes : ∀ t ∈ ms.flatMap Member.types, Spelt t.words)
    (hnames : ∀ name ∈ ms.flatMap Member.names, isToken .identifier name.toList) :
    Spelt (memberWords ms) := by
  induction ms with
  | nil => exact nil
  | cons m ms ih =>
    rw [List.flatMap_cons, List.forall_mem_append] at htypes hnames
    exact append (member htypes.1 hnames.1)
      (fixed (by decide) (ih htypes.2 hnames.2))

end Spelt

theorem TypeExpr.Admissible.spelt {levels : Nat} {t : TypeExpr} (h : t.Admissible levels) :
    Spelt t.words := by
  induction h with
  | @intro levels t hproper _ _ hbeside hwithin =>
    obtain ⟨hnames, hshape⟩ := Bool.and_eq_true_iff.1 hproper
    rw [List.all_eq_true] at hnames
    cases t with
    | reference span name arguments =>
      refine .append (.steps hnames) ?_
      cases arguments with
      | none => exact .nil
      | some ts => exact .list (by decide) (by decide) (.types hwithin)
    | literal span value =>
      cases value with
      | string value => exact .cons (Word.spelled_quoted _) .nil
      | number raw => exact .number hshape
      | boolean value => cases value <;> exact .fixed (by decide) .nil
    | array span readonly element =>
      cases readonly with
      | true => exact .fixed (by decide) (hwithin _ (.head _))
      | false =>
        exact .append .nil (.append (hbeside element (.head _))
          (.fixed (by decide) (.fixed (by decide) .nil)))
    | tuple span readonly elements =>
      cases readonly with
      | true => exact .fixed (by decide) (hwithin _ (.head _))
      | false => exact .list (by decide) (by decide) (.types hwithin)
    | union span arms => exact .join (by decide) (.types hbeside)
    | intersection span arms => exact .join (by decide) (.types hbeside)
    | function span typeParameters parameters result =>
      obtain ⟨htypes, hresult⟩ := List.forall_mem_append.1 hwithin
      exact .signature htypes hnames (.fixed (by decide) (hresult _ (.head _)))
    | constructor span typeParameters parameters result =>
      obtain ⟨htypes, hresult⟩ := List.forall_mem_append.1 hwithin
      exact .fixed (by decide) (.signature htypes hnames
        (.fixed (by decide) (hresult _ (.head _))))
    | object span members =>
      exact .fixed (by decide) (.append (.members hwithin hnames)
        (.fixed (by decide) .nil))
    | parenthesized span inner =>
      exact .fixed (by decide) (.append (hwithin _ (.head _))
        (.fixed (by decide) .nil))
    | indexedAccess span target index =>
      exact .append (hbeside _ (.head _)) (.fixed (by decide)
        (.append (hwithin _ (.head _)) (.fixed (by decide) .nil)))
    | query span name => exact .fixed (by decide) (.steps hnames)
    | keyOf span operand => exact .fixed (by decide) (hwithin _ (.head _))
    | this span => exact .fixed (by decide) .nil

end Ambient
