import Ambient.Declaration.Outline
import Ambient.Proofs.Erasure
import Ambient.Proofs.Scanning
/-!
# Trees over a token stream

`Fits s i j os` says that the outlines `os` stand in order between the tokens `i` and `j` of the
stream of `s`: each of them covers a nonempty run of tokens, and so do its parts inside it.

`Same s i j a a'` relates two values read between the tokens `i` and `j`: their erasures are equal,
and what the first is made of fits there. There is one lemma for each form of node, which builds a
node from its parts.
-/

namespace Ambient

/-- The text from the start of token `i` to the end of the last token before `j`. -/
def Scanner.spanOf (s : Scanner) (i j : Nat) : Span :=
  ⟨(s.token i).span.start, (s.token (j - 1)).span.stop⟩

/-! ## Outlines over tokens -/

/-- The outlines stand in order between the tokens `i` and `j`. Each covers a nonempty run of
tokens, inside which its parts stand in order. -/
inductive Fits (s : Scanner) : Nat → Nat → List Outline → Prop
  | nil {i j} : i ≤ j → Fits s i j []
  | cons {i a b j label parts os} : i ≤ a → a < b → Fits s a b parts → Fits s b j os →
    Fits s i j (.node label (s.spanOf a b) parts :: os)

namespace Fits

variable {s : Scanner} {i j k l : Nat} {os ps : List Outline}

theorem le (h : Fits s i j os) : i ≤ j := by
  induction h with
  | nil h => exact h
  | cons hia hab _ _ _ ih => omega

theorem mono (h : Fits s j k os) (hij : i ≤ j) (hkl : k ≤ l) : Fits s i l os := by
  induction h generalizing i l with
  | nil h => exact .nil (by omega)
  | cons hja hab hparts _ _ ih => exact .cons (by omega) hab hparts (ih le_rfl hkl)

theorem append (h : Fits s i j os) (h' : Fits s k l ps) (hjk : j ≤ k) :
    Fits s i l (os ++ ps) := by
  induction h with
  | nil h => exact h'.mono (by omega) le_rfl
  | cons hia hab hparts _ _ ih => exact .cons hia hab hparts (ih hjk)

theorem node {label : String} (h : Fits s j k ps) (hin : i ≤ j ∧ k ≤ l ∧ i < l) :
    Fits s i l [.node label (s.spanOf i l) ps] :=
  .cons le_rfl hin.2.2 (h.mono hin.1 hin.2.1) (.nil le_rfl)

theorem leaf {label : String} (hij : i < j) : Fits s i j [.leaf label (s.spanOf i j)] :=
  .node (.nil hij.le) ⟨le_rfl, le_rfl, hij⟩

end Fits

/-! ## Values with spans in them -/

/-- A type of values that carry spans: the outlines of what a value is made of, and the value
without its spans. -/
class Located (α : Type) where
  outlines : α → List Outline
  erase : α → α

open Located (outlines erase)

/-- A value without spans. -/
abbrev Located.plain {α : Type} : Located α := ⟨fun _ => [], id⟩

instance : Located Unit := .plain
instance : Located Bool := .plain
instance : Located String := .plain
instance : Located EntityName := .plain
instance : Located EnumValue := .plain
instance : Located ModuleName := .plain
instance : Located TypeExpr := ⟨fun e => [e.outline], TypeExpr.erase⟩
instance : Located TypeParameter := ⟨fun p => [p.outline], TypeParameter.erase⟩
instance : Located Parameter := ⟨fun p => [p.outline], Parameter.erase⟩
instance : Located Member := ⟨fun m => [m.outline], Member.erase⟩
instance : Located EnumMember := ⟨fun m => [.leaf "EnumMember" m.span], EnumMember.erase⟩
instance : Located ListedName := ⟨fun n => [.leaf "Name" n.span], ListedName.erase⟩
instance : Located Declaration := ⟨fun d => [.node d.tag d.span d.parts], Declaration.erase⟩
instance : Located Statement := ⟨fun s => [s.outline], Statement.erase⟩

/-- A span read on its own is that of a declared name. -/
instance : Located Span := ⟨fun span => [.leaf "name" span], fun _ => .nowhere⟩

instance {α β : Type} [Located α] [Located β] : Located (α × β) :=
  ⟨fun x => outlines x.1 ++ outlines x.2, fun x => (erase x.1, erase x.2)⟩

instance {α : Type} [Located α] : Located (Option α) :=
  ⟨fun x => x.elim [] outlines, Option.map erase⟩

instance {α : Type} [Located α] : Located (List α) :=
  ⟨fun as => as.flatMap outlines, List.map erase⟩

theorem typesOutline_eq (ts : List TypeExpr) : typesOutline ts = outlines ts := by
  induction ts with
  | nil => rfl
  | cons t ts ih => exact congrArg (t.outline :: ·) ih

theorem typeParametersOutline_eq (ps : List TypeParameter) :
    typeParametersOutline ps = outlines ps := by
  induction ps with
  | nil => rfl
  | cons p ps ih => exact congrArg (p.outline :: ·) ih

theorem parametersOutline_eq (ps : List Parameter) : parametersOutline ps = outlines ps := by
  induction ps with
  | nil => rfl
  | cons p ps ih => exact congrArg (p.outline :: ·) ih

theorem membersOutline_eq (ms : List Member) : membersOutline ms = outlines ms := by
  induction ms with
  | nil => rfl
  | cons m ms ih => exact congrArg (m.outline :: ·) ih

theorem statementsOutline_eq (ss : List Statement) : statementsOutline ss = outlines ss := by
  induction ss with
  | nil => rfl
  | cons s ss ih => exact congrArg (s.outline :: ·) ih

theorem typeOutline?_eq (t : Option TypeExpr) : typeOutline? t = outlines t := by cases t <;> rfl

theorem argumentsOutline_eq (ts : Option (List TypeExpr)) : argumentsOutline ts = outlines ts := by
  cases ts with
  | none => rfl
  | some ts => exact typesOutline_eq ts

theorem typeParametersOutline?_eq (ps : Option (List TypeParameter)) :
    typeParametersOutline? ps = outlines ps := by
  cases ps with
  | none => rfl
  | some ps => exact typeParametersOutline_eq ps

theorem statementsOutline?_eq (ss : Option (List Statement)) :
    statementsOutline? ss = outlines ss := by
  cases ss with
  | none => rfl
  | some ss => exact statementsOutline_eq ss

theorem eraseType?_eq (t : Option TypeExpr) : eraseType? t = erase t := by cases t <;> rfl

theorem eraseArguments_eq (ts : Option (List TypeExpr)) : eraseArguments ts = erase ts := by
  cases ts with
  | none => rfl
  | some ts => exact congrArg some (eraseTypes_eq_map ts)

theorem eraseTypeParameters?_eq (ps : Option (List TypeParameter)) :
    eraseTypeParameters? ps = erase ps := by
  cases ps with
  | none => rfl
  | some ps => exact congrArg some (eraseTypeParameters_eq_map ps)

theorem eraseStatements?_eq (ss : Option (List Statement)) : eraseStatements? ss = erase ss := by
  cases ss with
  | none => rfl
  | some ss => exact congrArg some (eraseStatements_eq_map ss)

/-! ## Values read from two streams -/

/-- Two values that differ in spans only, of which the first is made of what stands between the
tokens `i` and `j`. -/
structure Same {α : Type} [Located α] (s : Scanner) (i j : Nat) (a a' : α) : Prop where
  fits : Fits s i j (outlines a)
  erased : erase a = erase a'

namespace Same

variable {s : Scanner} {i j k l : Nat} {span : Span}

section

variable {α β : Type} [Located α] [Located β] {a a' : α} {b b' : β}

theorem mono (h : Same s j k a a') (hin : i ≤ j ∧ k ≤ l) : Same s i l a a' :=
  ⟨h.fits.mono hin.1 hin.2, h.erased⟩

theorem prod (ha : Same s i j a a') (hb : Same s k l b b') (hjk : j ≤ k) :
    Same s i l (a, b) (a', b') :=
  ⟨ha.fits.append hb.fits hjk, Prod.ext ha.erased hb.erased⟩

theorem none (hij : i ≤ j) : Same s i j (none : Option α) none := ⟨.nil hij, rfl⟩

theorem some (h : Same s i j a a') : Same s i j (some a) (some a') :=
  ⟨h.fits, congrArg Option.some h.erased⟩

theorem nil (hij : i ≤ j) : Same s i j ([] : List α) [] := ⟨.nil hij, rfl⟩

theorem append {as as' bs bs' : List α} (h : Same s i j as as') (h' : Same s k l bs bs')
    (hjk : j ≤ k) : Same s i l (as ++ bs) (as' ++ bs') := by
  refine ⟨?_, ?_⟩
  · have := h.fits.append h'.fits hjk
    simpa [outlines] using this
  · have hl := h.erased
    have hr := h'.erased
    simp only [erase] at hl hr ⊢
    rw [List.map_append, List.map_append, hl, hr]

theorem singleton (h : Same s i j a a') : Same s i j [a] [a'] :=
  ⟨by simpa [outlines] using h.fits, congrArg (fun x => [x]) h.erased⟩

theorem getD {as as' : Option (List α)} (h : Same s i j as as') :
    Same s i j (as.getD []) (as'.getD []) := by
  cases as with
  | none =>
    cases as' with
    | none => exact nil h.fits.le
    | some as' => exact nomatch h.erased
  | some as =>
    cases as' with
    | none => exact nomatch h.erased
    | some as' => exact ⟨h.fits, Option.some.inj h.erased⟩

end

/-! ## Lists and options of nodes -/

theorem types {ts ts' : List TypeExpr} (h : Same s i j ts ts') :
    Fits s i j (typesOutline ts) ∧ eraseTypes ts = eraseTypes ts' := by
  rw [typesOutline_eq, eraseTypes_eq_map, eraseTypes_eq_map]
  exact ⟨h.fits, h.erased⟩

theorem type? {t t' : Option TypeExpr} (h : Same s i j t t') :
    Fits s i j (typeOutline? t) ∧ eraseType? t = eraseType? t' := by
  rw [typeOutline?_eq, eraseType?_eq, eraseType?_eq]
  exact ⟨h.fits, h.erased⟩

theorem arguments {ts ts' : Option (List TypeExpr)} (h : Same s i j ts ts') :
    Fits s i j (argumentsOutline ts) ∧ eraseArguments ts = eraseArguments ts' := by
  rw [argumentsOutline_eq, eraseArguments_eq, eraseArguments_eq]
  exact ⟨h.fits, h.erased⟩

theorem typeParameters? {ps ps' : Option (List TypeParameter)} (h : Same s i j ps ps') :
    Fits s i j (typeParametersOutline? ps) ∧
      eraseTypeParameters? ps = eraseTypeParameters? ps' := by
  rw [typeParametersOutline?_eq, eraseTypeParameters?_eq, eraseTypeParameters?_eq]
  exact ⟨h.fits, h.erased⟩

theorem parameters {ps ps' : List Parameter} (h : Same s i j ps ps') :
    Fits s i j (parametersOutline ps) ∧ eraseParameters ps = eraseParameters ps' := by
  rw [parametersOutline_eq, eraseParameters_eq_map, eraseParameters_eq_map]
  exact ⟨h.fits, h.erased⟩

theorem members {ms ms' : List Member} (h : Same s i j ms ms') :
    Fits s i j (membersOutline ms) ∧ eraseMembers ms = eraseMembers ms' := by
  rw [membersOutline_eq, eraseMembers_eq_map, eraseMembers_eq_map]
  exact ⟨h.fits, h.erased⟩

theorem statements {ss ss' : List Statement} (h : Same s i j ss ss') :
    Fits s i j (statementsOutline ss) ∧ eraseStatements ss = eraseStatements ss' := by
  rw [statementsOutline_eq, eraseStatements_eq_map, eraseStatements_eq_map]
  exact ⟨h.fits, h.erased⟩

theorem statements? {ss ss' : Option (List Statement)} (h : Same s i j ss ss') :
    Fits s i j (statementsOutline? ss) ∧ eraseStatements? ss = eraseStatements? ss' := by
  rw [statementsOutline?_eq, eraseStatements?_eq, eraseStatements?_eq]
  exact ⟨h.fits, h.erased⟩

/-! ## Types -/

section

variable {a b c d e f : Nat} {x x' y y' : TypeExpr} {xs xs' : List TypeExpr}
  {args args' : Option (List TypeExpr)} {t t' u u' : Option TypeExpr}
  {tps tps' : Option (List TypeParameter)} {ps ps' : List Parameter} {ms ms' : List Member}

theorem reference {name : EntityName} (h : Same s a b args args') (hin : i ≤ a ∧ b ≤ j ∧ i < j) :
    Same s i j (TypeExpr.reference (s.spanOf i j) name args) (.reference span name args') where
  fits := h.arguments.1.node hin
  erased := congrArg (TypeExpr.reference .nowhere name) h.arguments.2

theorem literal {value : Literal} (hij : i < j) :
    Same s i j (TypeExpr.literal (s.spanOf i j) value) (.literal span value) := ⟨.leaf hij, rfl⟩

theorem array {readonly : Bool} (h : Same s a b x x') (hin : i ≤ a ∧ b ≤ j ∧ i < j) :
    Same s i j (TypeExpr.array (s.spanOf i j) readonly x) (.array span readonly x') where
  fits := h.fits.node hin
  erased := congrArg (TypeExpr.array .nowhere readonly) h.erased

theorem tuple {readonly : Bool} (h : Same s a b xs xs') (hin : i ≤ a ∧ b ≤ j ∧ i < j) :
    Same s i j (TypeExpr.tuple (s.spanOf i j) readonly xs) (.tuple span readonly xs') where
  fits := h.types.1.node hin
  erased := congrArg (TypeExpr.tuple .nowhere readonly) h.types.2

theorem union (h : Same s a b xs xs') (hin : i ≤ a ∧ b ≤ j ∧ i < j) :
    Same s i j (TypeExpr.union (s.spanOf i j) xs) (.union span xs') where
  fits := h.types.1.node hin
  erased := congrArg (TypeExpr.union .nowhere) h.types.2

theorem intersection (h : Same s a b xs xs') (hin : i ≤ a ∧ b ≤ j ∧ i < j) :
    Same s i j (TypeExpr.intersection (s.spanOf i j) xs) (.intersection span xs') where
  fits := h.types.1.node hin
  erased := congrArg (TypeExpr.intersection .nowhere) h.types.2

theorem function (htps : Same s a b tps tps') (hps : Same s b c ps ps') (hx : Same s d e x x')
    (hcd : c ≤ d) (hin : i ≤ a ∧ e ≤ j ∧ i < j) :
    Same s i j (TypeExpr.function (s.spanOf i j) tps ps x) (.function span tps' ps' x') where
  fits := ((htps.typeParameters?.1.append hps.parameters.1 le_rfl).append hx.fits hcd).node hin
  erased := by
    change TypeExpr.function .nowhere _ _ x.erase = .function .nowhere _ _ x'.erase
    rw [htps.typeParameters?.2, hps.parameters.2, show x.erase = x'.erase from hx.erased]

theorem constructor (htps : Same s a b tps tps') (hps : Same s b c ps ps') (hx : Same s d e x x')
    (hcd : c ≤ d) (hin : i ≤ a ∧ e ≤ j ∧ i < j) :
    Same s i j (TypeExpr.constructor (s.spanOf i j) tps ps x) (.constructor span tps' ps' x') where
  fits := ((htps.typeParameters?.1.append hps.parameters.1 le_rfl).append hx.fits hcd).node hin
  erased := by
    change TypeExpr.constructor .nowhere _ _ x.erase = .constructor .nowhere _ _ x'.erase
    rw [htps.typeParameters?.2, hps.parameters.2, show x.erase = x'.erase from hx.erased]

theorem object (h : Same s a b ms ms') (hin : i ≤ a ∧ b ≤ j ∧ i < j) :
    Same s i j (TypeExpr.object (s.spanOf i j) ms) (.object span ms') where
  fits := h.members.1.node hin
  erased := congrArg (TypeExpr.object .nowhere) h.members.2

theorem parenthesized (h : Same s a b x x') (hin : i ≤ a ∧ b ≤ j ∧ i < j) :
    Same s i j (TypeExpr.parenthesized (s.spanOf i j) x) (.parenthesized span x') where
  fits := h.fits.node hin
  erased := congrArg (TypeExpr.parenthesized .nowhere) h.erased

theorem indexedAccess (hx : Same s a b x x') (hy : Same s c d y y')
    (hbc : b ≤ c) (hin : i ≤ a ∧ d ≤ j ∧ i < j) :
    Same s i j (TypeExpr.indexedAccess (s.spanOf i j) x y) (.indexedAccess span x' y') where
  fits := (hx.fits.append hy.fits hbc).node hin
  erased := congrArg₂ (TypeExpr.indexedAccess .nowhere) hx.erased hy.erased

theorem query {name : EntityName} (hij : i < j) :
    Same s i j (TypeExpr.query (s.spanOf i j) name) (.query span name) := ⟨.leaf hij, rfl⟩

theorem keyOf (h : Same s a b x x') (hin : i ≤ a ∧ b ≤ j ∧ i < j) :
    Same s i j (TypeExpr.keyOf (s.spanOf i j) x) (.keyOf span x') where
  fits := h.fits.node hin
  erased := congrArg (TypeExpr.keyOf .nowhere) h.erased

theorem this (hij : i < j) :
    Same s i j (TypeExpr.this (s.spanOf i j)) (.this span) := ⟨.leaf hij, rfl⟩

theorem typeParameter {name : String} (ht : Same s a b t t') (hu : Same s b c u u')
    (hin : i ≤ a ∧ c ≤ j ∧ i < j) :
    Same s i j (TypeParameter.mk (s.spanOf i j) name t u) ⟨span, name, t', u'⟩ where
  fits := (ht.type?.1.append hu.type?.1 le_rfl).node hin
  erased := congrArg₂ (TypeParameter.mk .nowhere name) ht.type?.2 hu.type?.2

theorem parameter {name : String} {optional rest : Bool} (h : Same s a b t t')
    (hin : i ≤ a ∧ b ≤ j ∧ i < j) :
    Same s i j (Parameter.mk (s.spanOf i j) name optional rest t)
      ⟨span, name, optional, rest, t'⟩ where
  fits := h.type?.1.node hin
  erased := congrArg (Parameter.mk .nowhere name optional rest) h.type?.2

/-! ## Members -/

theorem fits_signature (htps : Same s a b tps tps') (hps : Same s b c ps ps')
    (ht : Same s c d t t') :
    Fits s a d (typeParametersOutline? tps ++ parametersOutline ps ++ typeOutline? t) :=
  (htps.typeParameters?.1.append hps.parameters.1 le_rfl).append ht.type?.1 le_rfl

theorem property {readonly optional : Bool} {key : String} (h : Same s a b t t')
    (hin : i ≤ a ∧ b ≤ j ∧ i < j) :
    Same s i j (Member.property (s.spanOf i j) readonly key optional t)
      (.property span readonly key optional t') where
  fits := h.type?.1.node hin
  erased := congrArg (Member.property .nowhere readonly key optional) h.type?.2

theorem method {optional : Bool} {key : String} (htps : Same s a b tps tps')
    (hps : Same s b c ps ps') (ht : Same s c d t t') (hin : i ≤ a ∧ d ≤ j ∧ i < j) :
    Same s i j (Member.method (s.spanOf i j) key optional tps ps t)
      (.method span key optional tps' ps' t') where
  fits := (htps.fits_signature hps ht).node hin
  erased := by
    change Member.method .nowhere key optional _ _ _ = .method .nowhere key optional _ _ _
    rw [htps.typeParameters?.2, hps.parameters.2, ht.type?.2]

theorem call (htps : Same s a b tps tps') (hps : Same s b c ps ps') (ht : Same s c d t t')
    (hin : i ≤ a ∧ d ≤ j ∧ i < j) :
    Same s i j (Member.call (s.spanOf i j) tps ps t) (.call span tps' ps' t') where
  fits := (htps.fits_signature hps ht).node hin
  erased := by
    change Member.call .nowhere _ _ _ = .call .nowhere _ _ _
    rw [htps.typeParameters?.2, hps.parameters.2, ht.type?.2]

theorem construct (htps : Same s a b tps tps') (hps : Same s b c ps ps') (ht : Same s c d t t')
    (hin : i ≤ a ∧ d ≤ j ∧ i < j) :
    Same s i j (Member.construct (s.spanOf i j) tps ps t) (.construct span tps' ps' t') where
  fits := (htps.fits_signature hps ht).node hin
  erased := by
    change Member.construct .nowhere _ _ _ = .construct .nowhere _ _ _
    rw [htps.typeParameters?.2, hps.parameters.2, ht.type?.2]

theorem index {readonly : Bool} {name : String} (hx : Same s a b x x') (hy : Same s c d y y')
    (hbc : b ≤ c) (hin : i ≤ a ∧ d ≤ j ∧ i < j) :
    Same s i j (Member.index (s.spanOf i j) readonly name x y)
      (.index span readonly name x' y') where
  fits := (hx.fits.append hy.fits hbc).node hin
  erased := congrArg₂ (Member.index .nowhere readonly name) hx.erased hy.erased

/-! ## Declarations -/

variable {name name' : String} {nameSpan nameSpan' : Span} {exported : Export}
  {ss ss' : List Statement} {body body' : Option (List Statement)} {ns ns' : List ListedName}

theorem moduleDeclaration {path path' : ModuleName}
    (hname : Same s a b (nameSpan, path) (nameSpan', path')) (hbody : Same s c d body body')
    (hbc : b ≤ c) (hin : i ≤ a ∧ d ≤ j ∧ i < j) :
    Same s i j (Declaration.ofModule (s.spanOf i j) nameSpan path body)
      (.ofModule span nameSpan' path' body') where
  fits := (hname.fits.append hbody.statements?.1 hbc).node hin
  erased := congrArg₂ (Declaration.ofModule .nowhere .nowhere) (congrArg Prod.snd hname.erased)
    hbody.statements?.2

theorem namespaceDeclaration (h : Same s a b ss ss') (hin : i ≤ a ∧ b ≤ j ∧ i < j) :
    Same s i j (Declaration.ofNamespace (s.spanOf i j) exported name ss)
      (.ofNamespace span exported name ss') where
  fits := h.statements.1.node hin
  erased := congrArg (Declaration.ofNamespace .nowhere exported name) h.statements.2

theorem globalDeclaration (h : Same s a b ss ss') (hin : i ≤ a ∧ b ≤ j ∧ i < j) :
    Same s i j (Declaration.ofGlobal (s.spanOf i j) ss) (.ofGlobal span ss') where
  fits := h.statements.1.node hin
  erased := congrArg (Declaration.ofGlobal .nowhere) h.statements.2

theorem variableDeclaration {word : VariableWord}
    (hname : Same s a b (nameSpan, name) (nameSpan', name')) (ht : Same s b c t t')
    (hin : i ≤ a ∧ c ≤ j ∧ i < j) :
    Same s i j (Declaration.ofVariable ⟨s.spanOf i j, exported, word, nameSpan, name, t⟩)
      (.ofVariable ⟨span, exported, word, nameSpan', name', t'⟩) where
  fits := (hname.fits.append ht.type?.1 le_rfl).node hin
  erased := by
    have hword : name = name' := congrArg Prod.snd hname.erased
    change Declaration.ofVariable ⟨.nowhere, exported, word, .nowhere, name, _⟩
      = .ofVariable ⟨.nowhere, exported, word, .nowhere, name', _⟩
    rw [hword, ht.type?.2]

theorem functionDeclaration (hname : Same s a b (nameSpan, name) (nameSpan', name'))
    (htps : Same s b c tps tps') (hps : Same s c d ps ps') (ht : Same s d e t t')
    (hin : i ≤ a ∧ e ≤ j ∧ i < j) :
    Same s i j (Declaration.ofFunction ⟨s.spanOf i j, exported, nameSpan, name, tps, ps, t⟩)
      (.ofFunction ⟨span, exported, nameSpan', name', tps', ps', t'⟩) where
  fits := (((hname.fits.append htps.typeParameters?.1 le_rfl).append hps.parameters.1 le_rfl).append
    ht.type?.1 le_rfl).node hin
  erased := by
    have hword : name = name' := congrArg Prod.snd hname.erased
    change Declaration.ofFunction ⟨.nowhere, exported, .nowhere, name, _, _, _⟩
      = .ofFunction ⟨.nowhere, exported, .nowhere, name', _, _, _⟩
    rw [hword, htps.typeParameters?.2, hps.parameters.2, ht.type?.2]

theorem typeAliasDeclaration (hname : Same s a b (nameSpan, name) (nameSpan', name'))
    (htps : Same s b c tps tps') (hx : Same s d e x x')
    (hcd : c ≤ d) (hin : i ≤ a ∧ e ≤ j ∧ i < j) :
    Same s i j (Declaration.ofTypeAlias ⟨s.spanOf i j, exported, nameSpan, name, tps, x⟩)
      (.ofTypeAlias ⟨span, exported, nameSpan', name', tps', x'⟩) where
  fits := ((hname.fits.append htps.typeParameters?.1 le_rfl).append hx.fits hcd).node hin
  erased := by
    have hword : name = name' := congrArg Prod.snd hname.erased
    change Declaration.ofTypeAlias ⟨.nowhere, exported, .nowhere, name, _, x.erase⟩
      = .ofTypeAlias ⟨.nowhere, exported, .nowhere, name', _, x'.erase⟩
    rw [hword, htps.typeParameters?.2, show x.erase = x'.erase from hx.erased]

theorem interfaceDeclaration (hname : Same s a b (nameSpan, name) (nameSpan', name'))
    (htps : Same s b c tps tps') (hxs : Same s c d xs xs') (hms : Same s d e ms ms')
    (hin : i ≤ a ∧ e ≤ j ∧ i < j) :
    Same s i j (Declaration.ofInterface ⟨s.spanOf i j, exported, nameSpan, name, tps, xs, ms⟩)
      (.ofInterface ⟨span, exported, nameSpan', name', tps', xs', ms'⟩) where
  fits := (((hname.fits.append htps.typeParameters?.1 le_rfl).append hxs.types.1 le_rfl).append
    hms.members.1 le_rfl).node hin
  erased := by
    have hword : name = name' := congrArg Prod.snd hname.erased
    change Declaration.ofInterface ⟨.nowhere, exported, .nowhere, name, _, _, _⟩
      = .ofInterface ⟨.nowhere, exported, .nowhere, name', _, _, _⟩
    rw [hword, htps.typeParameters?.2, hxs.types.2, hms.members.2]

theorem classDeclaration {isAbstract : Bool} (htps : Same s a b tps tps') (ht : Same s b c t t')
    (hxs : Same s c d xs xs') (hms : Same s d e ms ms') (hin : i ≤ a ∧ e ≤ j ∧ i < j) :
    Same s i j (Declaration.ofClass ⟨s.spanOf i j, exported, isAbstract, name, tps, t, xs, ms⟩)
      (.ofClass ⟨span, exported, isAbstract, name, tps', t', xs', ms'⟩) where
  fits := (((htps.typeParameters?.1.append ht.type?.1 le_rfl).append hxs.types.1 le_rfl).append
    hms.members.1 le_rfl).node hin
  erased := by
    change Declaration.ofClass ⟨.nowhere, exported, isAbstract, name, _, _, _, _⟩
      = .ofClass ⟨.nowhere, exported, isAbstract, name, _, _, _, _⟩
    rw [htps.typeParameters?.2, ht.type?.2, hxs.types.2, hms.members.2]

theorem enumMember {value : Option EnumValue} (hij : i < j) :
    Same s i j (EnumMember.mk (s.spanOf i j) name value) ⟨span, name, value⟩ := ⟨.leaf hij, rfl⟩

theorem listedName {newName : Option String} (hij : i < j) :
    Same s i j (ListedName.mk (s.spanOf i j) name newName) ⟨span, name, newName⟩ := ⟨.leaf hij, rfl⟩

theorem names {α : Type} {ns ns' : List α} [Located α] {label : String} {span : α → Span}
    (h : Same s i j ns ns') (hleaf : ∀ n : α, outlines n = [.leaf label (span n)]) :
    Fits s i j (ns.map fun n => .leaf label (span n)) := by
  have hflat : (ns.map fun n => Outline.leaf label (span n)) = outlines ns := by
    rw [List.map_eq_flatMap]
    exact (congrArg (ns.flatMap ·) (funext hleaf)).symm
  rw [hflat]
  exact h.fits

theorem enumDeclaration {isConst : Bool} {vs vs' : List EnumMember} (h : Same s a b vs vs')
    (hin : i ≤ a ∧ b ≤ j ∧ i < j) :
    Same s i j (Declaration.ofEnum ⟨s.spanOf i j, exported, isConst, name, vs⟩)
      (.ofEnum ⟨span, exported, isConst, name, vs'⟩) where
  fits := (h.names fun _ => rfl).node hin
  erased := congrArg (fun vs => Declaration.ofEnum ⟨.nowhere, exported, isConst, name, vs⟩) h.erased

theorem emptyStatement (hij : i < j) :
    Same s i j (Declaration.empty (s.spanOf i j)) (.empty span) := ⟨.leaf hij, rfl⟩

theorem exportAsNamespace (hij : i < j) :
    Same s i j (Declaration.exportAsNamespace (s.spanOf i j) name)
      (.exportAsNamespace span name) := ⟨.leaf hij, rfl⟩

theorem exportAssignment (hij : i < j) :
    Same s i j (Declaration.exportAssignment (s.spanOf i j) name)
      (.exportAssignment span name) := ⟨.leaf hij, rfl⟩

theorem exportList {typeOnly : Bool} {source : Option String} (h : Same s a b ns ns')
    (hin : i ≤ a ∧ b ≤ j ∧ i < j) :
    Same s i j (Declaration.exportList ⟨s.spanOf i j, typeOnly, ns, source⟩)
      (.exportList ⟨span, typeOnly, ns', source⟩) where
  fits := (h.names fun _ => rfl).node hin
  erased := congrArg (fun ns => Declaration.exportList ⟨.nowhere, typeOnly, ns, source⟩) h.erased

theorem importing {typeOnly : Bool} {defaultName namespaceName : Option String} {source : String}
    (h : Same s a b ns ns') (hin : i ≤ a ∧ b ≤ j ∧ i < j) :
    Same s i j
      (Declaration.importing ⟨s.spanOf i j, typeOnly, defaultName, namespaceName, ns, source⟩)
      (.importing ⟨span, typeOnly, defaultName, namespaceName, ns', source⟩) where
  fits := (h.names fun _ => rfl).node hin
  erased := congrArg
    (fun ns => Declaration.importing ⟨.nowhere, typeOnly, defaultName, namespaceName, ns, source⟩)
    h.erased

theorem statement {x x' : Declaration} (h : Same s a b x x') (hin : i ≤ a ∧ b ≤ j ∧ i < j) :
    Same s i j (Statement.mk (s.spanOf i j) x) ⟨span, x'⟩ where
  fits := h.fits.node hin
  erased := congrArg (Statement.mk .nowhere) h.erased

end

end Same

end Ambient
