import Ambient.Proofs.Erasure
import Ambient.Proofs.TypeStarts
/-!
# Parts of types read back

Names, literals, parameters and members are read from the words they are written with, provided
that the parsers one level further in read the types inside (`Level.Accepts`) and that what follows
cannot go on with the words.
-/

namespace Ambient

/-- The parsers of the level read the type from its words. -/
structure Level.Accepts (inner : Level) (t : TypeExpr) : Prop where
  starts : ∀ rest, headKind (t.words ++ rest) ∈ startsOf 0
  typeExpr : ∀ rest, headKind rest ∉ typeTails →
    Parser.Leaves (t.words ++ rest) rest inner.typeExpr (·.erase = t.erase)
  operand : 3 ≤ t.rank → ∀ rest, headKind rest ∉ operandTails →
    Parser.Leaves (t.words ++ rest) rest inner.operand (·.erase = t.erase)

namespace Parser

variable {α β : Type} {inner : Level} {ws rest : List Word}

/-! ## Names and literals -/

theorem leaves_name (n : String) : Leaves (Word.ofName n :: rest) rest name (· = n) := by
  refine .bind_pure (P := (·.2 = n)) (.requireWhere_bind rfl fun t ht => .pure ?_)
    fun _ h => h
  simp [Token.word, ht.text, Word.ofName]

theorem leaves_stringWithSpan (value : String) :
    Leaves (Word.ofString value :: rest) rest stringWithSpan (·.2 = value) := by
  refine .require_bind rfl fun t ht => ?_
  rw [ht.text, Word.ofString, decode?_unquote_quoted]
  exact .pure (String.ofList_toList ..)

theorem leaves_string (value : String) :
    Leaves (Word.ofString value :: rest) rest string (· = value) :=
  .bind_pure (leaves_stringWithSpan value) fun _ h => h

theorem leaves_number {digits : List Char} (h : numberFits digits) :
    Leaves (Word.ofNumber digits :: rest) rest number (· = String.ofList digits) := by
  refine .require_bind rfl fun t ht => ?_
  rw [ht.text, if_pos (by exact h)]
  exact .pure (congrArg String.ofList ht.text)

theorem leaves_negativeNumber {digits : List Char} (h : numberFits digits) :
    Leaves (Kind.hyphen.word :: Word.ofNumber digits :: rest) rest negativeNumber
      (· = String.ofList ('-' :: digits)) := by
  refine .bind (.consume _) fun _ _ => .bind_pure (leaves_number h) fun value hvalue => ?_
  rw [hvalue, ← String.toList_inj]
  simp

/-- The steps of a path are read one after the other, so what follows it is read by a loop that has
the path so far. -/
theorem leaves_entityName_loop (n : EntityName) {P : EntityName → Prop}
    (h : Loops ws rest (fun left => do
      if (← peekKind) == .dot then
        let _ ← consume
        let t ← requireWhere Kind.isAnyWord "identifier"
        return .yield (.qualified left t.word)
      else return .done left) n P) :
    Leaves (n.words ++ ws) rest entityName P := by
  induction n generalizing ws with
  | identifier n =>
    refine .bind (leaves_name n) fun first hfirst => ?_
    rw [hfirst]
    exact .repeatFrom h
  | qualified left right ih =>
    rw [EntityName.words, List.append_assoc]
    refine ih (.yield (Q := (· = .qualified left right)) (.peekKind_bind ?_) ?_ fun n hn => hn ▸ h)
    · refine .bind (.consume _) fun _ _ => .requireWhere_bind rfl fun t ht => ?_
      exact .pure ⟨_, rfl, by simp [Token.word, ht.text, Word.ofName]⟩
    · simp only [List.cons_append, List.length_cons, List.nil_append]
      omega

theorem leaves_entityName (n : EntityName) (hrest : headKind rest ≠ .dot) :
    Leaves (n.words ++ rest) rest entityName (· = n) := by
  refine leaves_entityName_loop n (.done (.peekKind_bind ?_))
  rw [if_neg (by simpa using hrest)]
  exact .pure ⟨n, rfl, rfl⟩

/-! ## Parts of types -/

theorem listWords_append (opening closing : Kind) (items : List (List Word)) (rest : List Word) :
    listWords opening closing items ++ rest
      = opening.word :: (joinWords .comma items ++ closing.word :: rest) := by
  simp [listWords]

theorem accept_mark {mark : Kind} {isSet : Bool} {f : Bool → Parser β} {Q : β → Prop}
    (hmark : headKind ws ≠ mark) (hf : Leaves ws rest (f isSet) Q) :
    Leaves (markWords mark isSet ++ ws) rest (accept mark >>= f) Q := by
  cases isSet with
  | true => exact .accept_of_eq rfl hf
  | false => exact .accept_of_ne hmark hf

theorem leaves_after_type {lead : Kind} {type : Option TypeExpr}
    (htype : ∀ t ∈ type.toList, inner.Accepts t) (hlead : headKind rest ≠ lead)
    (htail : headKind rest ∉ typeTails) :
    Leaves (leadWords lead type ++ rest) rest (after lead inner.typeExpr)
      (eraseType? · = eraseType? type) := by
  cases type with
  | none => exact (Leaves.after_of_ne hlead _).mono fun a ha => congrArg eraseType? ha
  | some t =>
    refine (Leaves.after_of_eq rfl ((htype t (by simp)).typeExpr rest htail)).mono fun a ha => ?_
    obtain ⟨t', rfl, ht'⟩ := ha
    exact congrArg some ht'

theorem map_eq_of_forall₂ {ι : Type} {erase : ι → ι} {xs as : List ι}
    (h : List.Forall₂ (fun x a => erase a = erase x) xs as) : as.map erase = xs.map erase := by
  induction h with
  | nil => rfl
  | cons hx _ ih => rw [List.map_cons, List.map_cons, hx, ih]

theorem leaves_commaList {ι : Type} {words : ι → List Word} {erase : ι → ι} {item : Parser ι}
    {close : Kind} {xs : List ι} (hclose : close ≠ .comma)
    (hstart : ∀ x ∈ xs, ∀ rest, headKind (words x ++ rest) ≠ close)
    (hitem : ∀ x ∈ xs, ∀ rest, headKind rest ∈ [.comma, close] →
      Leaves (words x ++ rest) rest item (erase · = erase x)) (rest : List Word) :
    Leaves (joinWords .comma (xs.map words) ++ close.word :: rest) rest (commaList close item)
      (·.map erase = xs.map erase) :=
  (Leaves.commaList hclose hstart hitem rest).mono fun _ h => map_eq_of_forall₂ h

theorem leaves_types {close : Kind} (hclose : close ∈ [.chevronRight, .bracketClose])
    {ts : List TypeExpr} (hts : ∀ t ∈ ts, inner.Accepts t) :
    Leaves (joinWords .comma (typesWords ts) ++ close.word :: rest) rest
      (commaList close inner.typeExpr) (eraseTypes · = eraseTypes ts) := by
  have hapart : close ≠ .comma ∧ close ∉ startsOf 0 ∧ ∀ k ∈ [.comma, close], k ∉ typeTails := by
    revert close
    decide
  simp only [typesWords_eq_map, eraseTypes_eq_map]
  refine leaves_commaList hapart.1 (fun t ht rest hhead => ?_) (fun t ht rest hrest => ?_) rest
  · exact hapart.2.1 (hhead ▸ (hts t ht).starts rest)
  · exact (hts t ht).typeExpr rest (hapart.2.2 _ hrest)

theorem leaves_typeParameter {p : TypeParameter} (hp : ∀ t ∈ p.types, inner.Accepts t)
    (hrest : headKind rest ∈ [.comma, .chevronRight]) :
    Leaves (p.words ++ rest) rest (typeParameter inner) (·.erase = p.erase) := by
  obtain ⟨span, name, constraint, fallback⟩ := p
  obtain ⟨hconstraint, hfallback⟩ := List.forall_mem_append.1 hp
  have hapart : ∀ k ∈ [Kind.comma, .chevronRight],
      k ≠ .equals ∧ k ≠ .kwExtends ∧ k ∉ typeTails := by decide
  obtain ⟨hequals, hextends⟩ := hapart _ hrest
  have hdefault : headKind (leadWords .equals fallback ++ rest) ≠ .kwExtends ∧
      headKind (leadWords .equals fallback ++ rest) ∉ typeTails := by
    cases fallback with
    | none => exact hextends
    | some t => exact (by decide : Kind.equals ≠ .kwExtends ∧ Kind.equals ∉ typeTails)
  rw [TypeParameter.words, List.cons_append, List.append_assoc]
  refine .spanned (.bind (leaves_name name) fun n hn => ?_)
  refine .bind (leaves_after_type hconstraint hdefault.1 hdefault.2) fun c hc => ?_
  refine .bind (leaves_after_type hfallback hequals hextends.2) fun d hd => ?_
  refine .pure fun span => ?_
  simp [TypeParameter.erase, hn, hc, hd]

theorem leaves_typeParameters {ps : Option (List TypeParameter)}
    (hps : ∀ t ∈ (ps.getD []).flatMap TypeParameter.types, inner.Accepts t)
    (hrest : headKind rest ≠ .chevronLeft) :
    Leaves (typeParameterWords ps ++ rest) rest (typeParameters inner)
      (eraseTypeParameters? · = eraseTypeParameters? ps) := by
  cases ps with
  | none => exact (Leaves.after_of_ne hrest _).mono fun a ha => congrArg eraseTypeParameters? ha
  | some ps =>
    have hlist : Leaves
        (joinWords .comma (typeParametersWords ps) ++ Kind.chevronRight.word :: rest) rest
        (commaList .chevronRight (typeParameter inner))
        (eraseTypeParameters · = eraseTypeParameters ps) := by
      simp only [typeParametersWords_eq_map, eraseTypeParameters_eq_map]
      refine leaves_commaList (by decide) (fun p _ rest => ?_) (fun p hp rest hrest => ?_) rest
      · obtain ⟨span, name, constraint, fallback⟩ := p
        exact nofun
      · exact leaves_typeParameter (fun t ht => hps t (List.mem_flatMap.2 ⟨p, hp, ht⟩)) hrest
    rw [typeParameterWords, listWords_append]
    refine (Leaves.after_of_eq rfl hlist).mono fun a ha => ?_
    obtain ⟨as, rfl, has⟩ := ha
    exact congrArg some has

theorem leaves_parameter {p : Parameter} (hp : ∀ t ∈ p.type.toList, inner.Accepts t)
    (hrest : headKind rest ∈ [.comma, .parenthesisClose]) :
    Leaves (p.words ++ rest) rest (parameter inner) (·.erase = p.erase) := by
  obtain ⟨span, name, optional, isRest, type⟩ := p
  have hapart : ∀ k ∈ [Kind.comma, .parenthesisClose],
      k ≠ .colon ∧ k ≠ .question ∧ k ∉ typeTails := by decide
  obtain ⟨hcolon, hquestion, htail⟩ := hapart _ hrest
  have htype : headKind (leadWords .colon type ++ rest) ≠ .question := by
    cases type with
    | none => exact hquestion
    | some t => exact nofun
  rw [Parameter.words, List.append_assoc, List.cons_append, List.append_assoc]
  refine .spanned (accept_mark (nofun) ?_)
  refine .requireWhere_bind rfl fun t ht => accept_mark htype ?_
  refine .bind (leaves_after_type hp hcolon htail) fun a ha => ?_
  refine .pure fun span => ?_
  simp [Parameter.erase, Token.word, ht.text, Word.ofName, ha]

theorem leaves_parameters {ps : List Parameter}
    (hps : ∀ t ∈ ps.flatMap (·.type.toList), inner.Accepts t) :
    Leaves (listWords .parenthesisOpen .parenthesisClose (parametersWords ps) ++ rest) rest
      (parameters inner) (eraseParameters · = eraseParameters ps) := by
  rw [listWords_append]
  simp only [parametersWords_eq_map, eraseParameters_eq_map]
  refine .require_bind rfl fun _ _ => ?_
  refine leaves_commaList (by decide) (fun p _ rest => ?_) (fun p hp rest hrest => ?_) rest
  · obtain ⟨span, name, optional, isRest, type⟩ := p
    cases isRest <;> exact nofun
  · exact leaves_parameter (fun t ht => hps t (List.mem_flatMap.2 ⟨p, hp, ht⟩)) hrest

/-- Type parameters and parameters, and then what comes behind them. -/
theorem leaves_signature {tps : Option (List TypeParameter)} {ps : List Parameter}
    {back : List Word} {f : Option (List TypeParameter) → List Parameter → Parser β}
    {Q : β → Prop}
    (htypes : ∀ t ∈ signatureTypes tps ps, inner.Accepts t)
    (hf : ∀ tps' ps', eraseTypeParameters? tps' = eraseTypeParameters? tps →
      eraseParameters ps' = eraseParameters ps → Leaves (back ++ ws) rest (f tps' ps') Q) :
    Leaves (signatureWords (typeParameterWords tps) (parametersWords ps) back ++ ws) rest
      (do
        let tps' ← typeParameters inner
        let ps' ← parameters inner
        f tps' ps') Q := by
  obtain ⟨htps, hps⟩ := List.forall_mem_append.1 htypes
  rw [signatureWords, List.append_assoc, List.append_assoc]
  refine .bind (leaves_typeParameters htps nofun) fun tps' htps' => ?_
  exact .bind (leaves_parameters hps) fun ps' hps' => hf tps' ps' htps' hps'

/-! ## Members -/

/-- A member, behind the mark that it is read only. -/
theorem leaves_member_keyed {r : Bool} {P : (Span → Member) → Prop}
    (hhead : headKind ws ∈ [.literalString, .bracketOpen])
    (hkeyed : ∀ a b c, a.kind = headKind ws → b.kind = headKind ws.tail →
      c.kind = headKind ws.tail.tail →
      Leaves ws rest (memberList.keyed inner none r (a, b, c)) P) :
    Leaves (markWords .kwReadonly r ++ ws) rest (memberList.member inner none) P := by
  have hapart : ∀ k ∈ [Kind.literalString, .bracketOpen], opensSignature k = false ∧ k ≠ .kwNew ∧
      k ≠ .kwReadonly ∧ readonlyIsKey k = false := by decide
  obtain ⟨hopens, hnew, hreadonly, hkey⟩ := hapart _ hhead
  unfold memberList.member
  simp only [Option.isSome_none, Bool.false_eq_true, if_false]
  refine .peek3_bind fun a b c ha hb hc => ?_
  cases r with
  | true =>
    have ha : a.kind = .kwReadonly := ha
    have hb : b.kind = headKind ws := hb
    rw [if_neg (by simp [ha, opensSignature]), if_neg (by simp [ha]),
      if_pos (by simp [ha, hb, hkey])]
    exact .bind (.consume _) fun _ _ => .peek3_bind hkeyed
  | false =>
    have ha : a.kind = headKind ws := ha
    rw [if_neg (by simp [ha, hopens]), if_neg (by simp [ha, hnew]),
      if_neg (by simp [ha, hreadonly])]
    exact hkeyed a b c ha hb hc

theorem leaves_memberKey (key : String) :
    Leaves (Word.ofString key :: rest) rest memberKey (· = key) := by
  refine .peek_bind fun t ht _ => ?_
  have ht : t.kind = .literalString := ht
  rw [ht]
  exact leaves_string key

theorem opensSignature_signature (tps : Option (List TypeParameter)) (items : List (List Word))
    (back ws : List Word) :
    opensSignature (headKind (signatureWords (typeParameterWords tps) items back ++ ws)) := by
  cases tps <;> rfl

/-- The kind is that of the semicolon behind a member, which ends a type as well. -/
theorem apart_of_semicolon {k : Kind} (h : k = .semicolon) :
    k ≠ .colon ∧ k ≠ .question ∧ opensSignature k = false ∧ k ∉ typeTails := by
  subst h
  decide

theorem leaves_member_property {readonly optional : Bool} {key : String} {type : Option TypeExpr}
    {span : Span} (htype : ∀ t ∈ type.toList, inner.Accepts t)
    (hrest : headKind rest = .semicolon) :
    Leaves ((Member.property span readonly key optional type).words ++ rest) rest
      (memberList.member inner none)
      fun make => ∀ s,
        (make s).erase = (Member.property span readonly key optional type).erase := by
  obtain ⟨hcolon, hquestion, hopens, htail⟩ := apart_of_semicolon hrest
  have hhead : headKind (leadWords .colon type ++ rest) ≠ .question ∧
      opensSignature (headKind (leadWords .colon type ++ rest)) = false := by
    cases type with
    | none => exact ⟨hquestion, hopens⟩
    | some t => exact ⟨nofun, rfl⟩
  rw [Member.words, List.append_assoc, List.cons_append, List.append_assoc]
  refine leaves_member_keyed (.head _) fun a b c ha _ _ => ?_
  have ha : a.kind = .literalString := ha
  unfold memberList.keyed
  dsimp only
  rw [if_neg (by simp [ha])]
  refine .bind (leaves_memberKey key) fun k hk => accept_mark hhead.1 (.peekKind_bind ?_)
  rw [if_neg (by simp [hhead.2])]
  refine .bind (leaves_after_type htype hcolon htail) fun type' htype' => .pure fun span => ?_
  simp [Member.erase, hk, htype']

/-- A signature with a result, which is the end of a member. -/
theorem leaves_signature_member {tps : Option (List TypeParameter)} {ps : List Parameter}
    {result : Option TypeExpr} {make : Span → Option (List TypeParameter) → List Parameter →
      Option TypeExpr → Member} {P : (Span → Member) → Prop}
    (htypes : ∀ t ∈ signatureTypes tps ps, inner.Accepts t)
    (hresult : ∀ t ∈ result.toList, inner.Accepts t) (hrest : headKind rest = .semicolon)
    (hP : ∀ tps' ps' result', eraseTypeParameters? tps' = eraseTypeParameters? tps →
      eraseParameters ps' = eraseParameters ps → eraseType? result' = eraseType? result →
      P fun span => make span tps' ps' result') :
    Leaves (signatureWords (typeParameterWords tps) (parametersWords ps) (leadWords .colon result)
        ++ rest) rest
      (do
        let tps' ← typeParameters inner
        let ps' ← parameters inner
        let result' ← typeAfterColon inner
        return fun span => make span tps' ps' result') P := by
  obtain ⟨hcolon, -, -, htail⟩ := apart_of_semicolon hrest
  refine leaves_signature htypes fun tps' ps' htps hps => ?_
  exact .bind_pure (leaves_after_type hresult hcolon htail) fun result' hresult' =>
    hP tps' ps' result' htps hps hresult'

theorem leaves_member_method {optional : Bool} {key : String} {tps : Option (List TypeParameter)}
    {ps : List Parameter} {result : Option TypeExpr} {span : Span}
    (htypes : ∀ t ∈ signatureTypes tps ps, inner.Accepts t)
    (hresult : ∀ t ∈ result.toList, inner.Accepts t) (hrest : headKind rest = .semicolon) :
    Leaves ((Member.method span key optional tps ps result).words ++ rest) rest
      (memberList.member inner none)
      fun make => ∀ s, (make s).erase = (Member.method span key optional tps ps result).erase := by
  have hopens := opensSignature_signature tps (parametersWords ps) (leadWords .colon result) rest
  rw [Member.words, List.cons_append, List.append_assoc]
  refine leaves_member_keyed (r := false) (.head _) fun a b c ha _ _ => ?_
  have ha : a.kind = .literalString := ha
  unfold memberList.keyed
  dsimp only
  rw [if_neg (by simp [ha])]
  refine .bind (leaves_memberKey key) fun k hk => accept_mark (fun h => ?_) (.peekKind_bind ?_)
  · rw [h] at hopens
    exact absurd hopens (by decide)
  rw [if_pos hopens]
  refine leaves_signature_member htypes hresult hrest fun tps' ps' result' htps hps hresult' s => ?_
  simp [Member.erase, hk, htps, hps, hresult']

theorem leaves_member_call {tps : Option (List TypeParameter)} {ps : List Parameter}
    {result : Option TypeExpr} {span : Span} (htypes : ∀ t ∈ signatureTypes tps ps, inner.Accepts t)
    (hresult : ∀ t ∈ result.toList, inner.Accepts t) (hrest : headKind rest = .semicolon) :
    Leaves ((Member.call span tps ps result).words ++ rest) rest (memberList.member inner none)
      fun make => ∀ s, (make s).erase = (Member.call span tps ps result).erase := by
  unfold memberList.member
  simp only [Option.isSome_none, Bool.false_eq_true, if_false]
  refine .peek3_bind fun a b c ha hb hc => ?_
  rw [if_pos (by rw [ha]; exact opensSignature_signature ..)]
  refine leaves_signature_member htypes hresult hrest fun tps' ps' result' htps hps hresult' s => ?_
  simp [Member.erase, htps, hps, hresult']

theorem leaves_member_construct {tps : Option (List TypeParameter)} {ps : List Parameter}
    {result : Option TypeExpr} {span : Span} (htypes : ∀ t ∈ signatureTypes tps ps, inner.Accepts t)
    (hresult : ∀ t ∈ result.toList, inner.Accepts t) (hrest : headKind rest = .semicolon) :
    Leaves ((Member.construct span tps ps result).words ++ rest) rest (memberList.member inner none)
      fun make => ∀ s, (make s).erase = (Member.construct span tps ps result).erase := by
  unfold memberList.member
  simp only [Option.isSome_none, Bool.false_eq_true, if_false]
  refine .peek3_bind fun a b c ha hb hc => ?_
  have ha : a.kind = .kwNew := ha
  rw [if_neg (by simp [ha, opensSignature]),
    if_pos (by rw [ha, hb]; exact opensSignature_signature ..)]
  refine .bind (.consume _) fun _ _ => leaves_signature_member htypes hresult hrest
    fun tps' ps' result' htps hps hresult' s => ?_
  simp [Member.erase, htps, hps, hresult']

theorem leaves_member_index {readonly : Bool} {n : String} {key type : TypeExpr} {span : Span}
    (hkey : inner.Accepts key) (htype : inner.Accepts type) (hrest : headKind rest = .semicolon) :
    Leaves ((Member.index span readonly n key type).words ++ rest) rest
      (memberList.member inner none)
      fun make => ∀ s, (make s).erase = (Member.index span readonly n key type).erase := by
  rw [Member.words, List.append_assoc]
  simp only [List.cons_append, List.append_assoc]
  refine leaves_member_keyed (.tail _ (.head _)) fun a b c ha hb hc => ?_
  have ha : a.kind = .bracketOpen := ha
  have hb : b.kind = .identifier := hb
  have hc : c.kind = .colon := hc
  unfold memberList.keyed
  dsimp only
  rw [if_pos (by simp [ha, hb, hc, Kind.isName])]
  refine .require_bind rfl fun _ _ => .bind (leaves_name n) fun n' hn => ?_
  have hclose : Kind.bracketClose ∉ typeTails := by decide
  refine .require_bind rfl fun _ _ => .bind (hkey.typeExpr _ (by exact hclose)) fun key' hkey' => ?_
  refine .require_bind rfl fun _ _ => .require_bind rfl fun _ _ => ?_
  refine .bind (htype.typeExpr _ (apart_of_semicolon hrest).2.2.2) fun type' htype' => ?_
  refine .pure fun span => ?_
  simp [Member.erase, hn, hkey', htype']

theorem leaves_member {m : Member} (hm : ∀ t ∈ m.types, inner.Accepts t)
    (hrest : headKind rest = .semicolon) :
    Leaves (m.words ++ rest) rest (memberList.member inner none)
      fun make => ∀ span, (make span).erase = m.erase := by
  cases m with
  | property => exact leaves_member_property hm hrest
  | method =>
    obtain ⟨htypes, hresult⟩ := List.forall_mem_append.1 hm
    exact leaves_member_method htypes hresult hrest
  | call =>
    obtain ⟨htypes, hresult⟩ := List.forall_mem_append.1 hm
    exact leaves_member_call htypes hresult hrest
  | construct =>
    obtain ⟨htypes, hresult⟩ := List.forall_mem_append.1 hm
    exact leaves_member_construct htypes hresult hrest
  | index => exact leaves_member_index (hm _ (.head _)) (hm _ (.tail _ (.head _))) hrest

/-- No member starts like the end of one or the end of all. -/
theorem headKind_member (m : Member) (ws : List Word) :
    headKind (m.words ++ ws) ≠ .semicolon ∧ headKind (m.words ++ ws) ≠ .braceClose := by
  cases m with
  | property _ readonly => cases readonly <;> exact ⟨nofun, nofun⟩
  | method => exact ⟨nofun, nofun⟩
  | call _ tps => cases tps <;> exact ⟨nofun, nofun⟩
  | construct => exact ⟨nofun, nofun⟩
  | index _ readonly => cases readonly <;> exact ⟨nofun, nofun⟩

theorem leaves_typeMembers {ms : List Member}
    (hms : ∀ t ∈ ms.flatMap Member.types, inner.Accepts t) :
    Leaves (Kind.braceOpen.word :: (memberWords ms ++ Kind.braceClose.word :: rest)) rest
      (typeMembers inner) (eraseMembers · = eraseMembers ms) := by
  have hblank : ∀ ws, headKind ws ≠ .semicolon → Leaves ws ws (repeatFrom () fun _ => do
      if ← accept .semicolon then return .yield () else return .done ()) (· = ()) := fun ws hws =>
    .repeatFrom (.done (.accept_of_ne hws (.pure ⟨(), rfl, rfl⟩)))
  rw [typeMembers, Twin.memberList_eq]
  refine .require_bind rfl fun _ _ => ?_
  refine .bind_pure (.repeatFrom (.items (R := fun m a => Member.erase a = Member.erase m)
    (fun ms => memberWords ms ++ Kind.braceClose.word :: rest) rest (fun m hm ms acc => ?_)
    (fun m ms => ?_) (fun acc => ?_) [])) fun r hr => ?_
  · rw [memberWords, List.append_assoc]
    obtain ⟨hsemicolon, hbrace⟩ := headKind_member m
      (Kind.semicolon.word :: memberWords ms ++ Kind.braceClose.word :: rest)
    refine .bind (hblank _ hsemicolon) fun _ _ => .accept_of_ne hbrace ?_
    refine .bind (.spanned (P := fun a => a.erase = m.erase) (leaves_member (fun t ht => ?_) rfl))
      fun a ha => ?_
    · exact hms t (List.mem_flatMap.2 ⟨m, hm, ht⟩)
    · exact .accept_of_eq rfl (.pure ⟨_, rfl, a, ha, rfl⟩)
  · simp only [memberWords, List.length_append, List.length_cons]
    omega
  · exact .bind (hblank _ nofun) fun _ _ => .accept_of_eq rfl (.pure rfl)
  · obtain ⟨as, has, rfl⟩ := hr
    rw [List.append_nil, List.reverse_reverse, eraseMembers_eq_map, eraseMembers_eq_map,
      map_eq_of_forall₂ has]

end Parser

end Ambient
