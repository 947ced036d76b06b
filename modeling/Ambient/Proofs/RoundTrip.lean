import Ambient.Proofs.RoundTripParts
/-!
# Types read back

A type of the grammar, written with one space between its tokens, is read as that type again
(`typeExpr_render`). Each parser from primary types to function types reads the types that bind
tightly enough for it, and the levels of nesting follow by induction (`Level.accepts_ofRoom`).
-/

namespace Ambient

namespace Parser

variable {inner : Level} {ws rest : List Word} {levels : Nat}

/-! ## Primary types -/

theorem leaves_typeReference {n : EntityName} {arguments : Option (List TypeExpr)} {span : Span}
    (harguments : ∀ t ∈ arguments.getD [], inner.Accepts t) (hrest : headKind rest ∉ primaryTails) :
    Leaves ((TypeExpr.reference span n arguments).words ++ rest) rest (typeReference inner)
      (·.erase = (TypeExpr.reference span n arguments).erase) := by
  simp only [primaryTails, List.mem_cons, List.not_mem_nil, or_false, not_or] at hrest
  rw [TypeExpr.words, List.append_assoc]
  refine .spanned (.bind (leaves_entityName n ?_) fun n' hn => ?_)
  · cases arguments with
    | none => exact hrest.1
    | some ts => simp [argumentWords, listWords, headKind, Kind.word]
  · refine .bind_pure (P := (eraseArguments · = eraseArguments arguments)) ?_ fun a ha span => ?_
    · cases arguments with
      | none => exact (Leaves.after_of_ne hrest.2 _).mono fun a ha => congrArg eraseArguments ha
      | some ts =>
        rw [argumentWords, listWords_append]
        refine (Leaves.after_of_eq rfl (leaves_types (.head _) harguments)).mono fun a ha => ?_
        obtain ⟨as, rfl, has⟩ := ha
        exact congrArg some has
    · simp [TypeExpr.erase, hn, ha]

theorem leaves_numberLiteral {cs : List Char} (h : isNumber cs) :
    Leaves (numberWords cs ++ rest) rest (primaryType inner)
      (·.erase = .literal .nowhere (.number (String.ofList cs))) := by
  have hfits : ∀ {digits}, isNumeral digits → numberFits digits := by
    intro digits hdigits
    exact (Bool.and_eq_true_iff.1 hdigits).2
  unfold primaryType
  unfold isNumber at h
  split at h
  · refine .peek_bind fun t ht _ => ?_
    rw [show t.kind = .hyphen from ht]
    exact .spanned (.bind_pure (leaves_negativeNumber (hfits h)) fun v hv span => by
      simp [hv, TypeExpr.erase])
  · rename_i hsign
    have hwords : numberWords cs = [.ofNumber cs] := by
      unfold numberWords
      split
      · exact absurd rfl (hsign _)
      · rfl
    rw [hwords]
    refine .peek_bind fun t ht _ => ?_
    rw [show t.kind = .literalNumber from ht]
    exact .spanned (.bind_pure (leaves_number (hfits h)) fun v hv span => by
      simp [hv, TypeExpr.erase])

theorem leaves_literal {value : Literal} {span : Span}
    (hvalue : (TypeExpr.literal span value).isProper) :
    Leaves (value.words ++ rest) rest (primaryType inner)
      (·.erase = (TypeExpr.literal span value).erase) := by
  cases value with
  | string value =>
    refine .peek_bind fun t ht _ => ?_
    rw [show t.kind = .literalString from ht]
    exact .spanned (.bind_pure (leaves_string value) fun v hv span => by simp [hv, TypeExpr.erase])
  | boolean value =>
    cases value with
    | true =>
      refine .peek_bind fun t ht _ => ?_
      rw [show t.kind = .literalTrue from ht]
      exact .spanned (.bind (.consume _) fun _ _ => .pure fun span => rfl)
    | false =>
      refine .peek_bind fun t ht _ => ?_
      rw [show t.kind = .literalFalse from ht]
      exact .spanned (.bind (.consume _) fun _ _ => .pure fun span => rfl)
  | number raw =>
    have hnumber := Bool.and_eq_true_iff.1 hvalue
    refine (leaves_numberLiteral hnumber.2).mono fun a ha => ?_
    rw [ha, String.ofList_toList, TypeExpr.erase]

theorem leaves_primaryType {t : TypeExpr} (hproper : t.isProper) (hrank : 4 ≤ t.rank)
    (hbeside : t.beside = []) (hwithin : ∀ u ∈ t.within, inner.Accepts u)
    (hrest : headKind rest ∉ primaryTails) :
    Leaves (t.words ++ rest) rest (primaryType inner) (·.erase = t.erase) := by
  cases t with
  | reference span n arguments =>
    refine .peek_bind fun t ht _ => ?_
    rw [TypeExpr.words, List.append_assoc, headKind_entityName] at ht
    rw [ht]
    exact leaves_typeReference hwithin hrest
  | literal span value => exact leaves_literal hproper
  | array span readonly element =>
    cases readonly <;> simp [TypeExpr.rank, TypeExpr.beside] at hrank hbeside
  | tuple span readonly elements =>
    cases readonly with
    | true => simp [TypeExpr.rank] at hrank
    | false =>
      refine .peek_bind fun t ht _ => ?_
      rw [show t.kind = .bracketOpen from ht, show (TypeExpr.tuple span false elements).words
        = listWords .bracketOpen .bracketClose (typesWords elements) from rfl, listWords_append]
      refine .spanned (.bind (.consume _) fun _ _ => .bind_pure
        (leaves_types (.tail _ (.head _)) hwithin) fun as has span => ?_)
      simp [TypeExpr.erase, has]
  | union => simp [TypeExpr.rank] at hrank
  | intersection => simp [TypeExpr.rank] at hrank
  | function => simp [TypeExpr.rank] at hrank
  | constructor => simp [TypeExpr.rank] at hrank
  | object span members =>
    refine .peek_bind fun t ht _ => ?_
    rw [show t.kind = .braceOpen from ht, TypeExpr.words, List.cons_append, List.append_assoc]
    exact .spanned (.bind_pure (leaves_typeMembers hwithin) fun as has span => by
      simp [TypeExpr.erase, has])
  | parenthesized span u =>
    refine .peek_bind fun t ht _ => ?_
    rw [show t.kind = .parenthesisOpen from ht, TypeExpr.words, List.cons_append, List.append_assoc]
    have hclose : Kind.parenthesisClose ∉ typeTails := by decide
    refine .spanned (.bind (.consume _) fun _ _ => ?_)
    refine .bind ((hwithin u (.head _)).typeExpr _ (by exact hclose)) fun a ha => ?_
    exact .require_bind rfl fun _ _ => .pure fun span => by simp [TypeExpr.erase, ha]
  | indexedAccess => simp [TypeExpr.beside] at hbeside
  | query span n =>
    refine .peek_bind fun t ht _ => ?_
    rw [show t.kind = .kwTypeof from ht, TypeExpr.words, List.cons_append]
    simp only [primaryTails, List.mem_cons, List.not_mem_nil, or_false, not_or] at hrest
    exact .spanned (.bind (.consume _) fun _ _ => .bind_pure (leaves_entityName n hrest.1)
      fun a ha span => by simp [TypeExpr.erase, ha])
  | keyOf => simp [TypeExpr.rank] at hrank
  | this span =>
    refine .peek_bind fun t ht _ => ?_
    rw [show t.kind = .kwThis from ht]
    exact .spanned (.bind (.consume _) fun _ _ => .pure fun span => rfl)

/-! ## Suffixes and operators -/

/-- One suffix of a type, or the end of its suffixes. -/
def suffixStep (inner : Level) (start : Nat) (type : TypeExpr) : Parser (ForInStep TypeExpr) := do
  let t ← peek
  if t.kind != .bracketOpen || t.newlineBefore then return .done type
  let _ ← consume
  if ← accept .bracketClose then
    return .yield (.array (← since start) false type)
  let index ← inner.typeExpr
  let _ ← require .bracketClose
  return .yield (.indexedAccess (← since start) type index)

theorem suffixedType_eq (inner : Level) :
    suffixedType inner = (do
      let start ← checkpoint
      let first ← primaryType inner
      repeatFrom first (suffixStep inner start)) := rfl

theorem leaves_suffixStep_array (start : Nat) (t : TypeExpr) :
    Leaves (Kind.bracketOpen.word :: Kind.bracketClose.word :: rest) rest (suffixStep inner start t)
      fun r => ∃ u, r = .yield u ∧ u.erase = .array .nowhere false t.erase := by
  refine .peek_bind fun token ht hnewline => ?_
  have ht : token.kind = .bracketOpen := ht
  rw [if_neg (by simp [ht, hnewline])]
  refine .bind (.consume _) fun _ _ => .accept_of_eq rfl (.since_bind fun span => ?_)
  exact .pure ⟨_, rfl, by simp [TypeExpr.erase]⟩

theorem leaves_suffixStep_index (start : Nat) (t : TypeExpr) {index : TypeExpr}
    (hindex : inner.Accepts index) :
    Leaves (Kind.bracketOpen.word :: (index.words ++ Kind.bracketClose.word :: rest)) rest
      (suffixStep inner start t)
      fun r => ∃ u, r = .yield u ∧ u.erase = .indexedAccess .nowhere t.erase index.erase := by
  have hapart : Kind.bracketClose ∉ startsOf 0 ∧ Kind.bracketClose ∉ typeTails := by decide
  refine .peek_bind fun token ht hnewline => ?_
  have ht : token.kind = .bracketOpen := ht
  rw [if_neg (by simp [ht, hnewline])]
  refine .bind (.consume _) fun _ _ => .accept_of_ne (fun h => ?_) ?_
  · exact hapart.1 (h ▸ hindex.starts _)
  refine .bind (hindex.typeExpr _ (by exact hapart.2)) fun a ha => .require_bind rfl fun _ _ => ?_
  exact .since_bind fun span => .pure ⟨_, rfl, by simp [TypeExpr.erase, ha]⟩

/-- A type with brackets behind it, or a primary type. -/
theorem suffix_cases {t : TypeExpr} (hrank : 4 ≤ t.rank) :
    (∃ span element, t = .array span false element) ∨
      (∃ span target index, t = .indexedAccess span target index) ∨ t.beside = [] := by
  cases t with
  | array span readonly element =>
    cases readonly with
    | true => simp [TypeExpr.rank] at hrank
    | false => exact .inl ⟨span, element, rfl⟩
  | indexedAccess span target index => exact .inr (.inl ⟨span, target, index, rfl⟩)
  | union => simp [TypeExpr.rank] at hrank
  | intersection => simp [TypeExpr.rank] at hrank
  | _ => exact .inr (.inr rfl)

/-- A type with suffixes is read from the left, so what follows it is read by the loop that has the
type so far. -/
theorem leaves_suffixes (hinner : ∀ u : TypeExpr, u.Admissible levels → inner.Accepts u)
    (start : Nat) {P : TypeExpr → Prop} {t : TypeExpr} (ht : t.Admissible (levels + 1))
    (hrank : 4 ≤ t.rank) {ws : List Word} (hws : headKind ws ∉ primaryTails)
    (h : ∀ a, a.erase = t.erase → Loops ws rest (suffixStep inner start) a P) :
    Leaves (t.words ++ ws) rest
      (do
        let first ← primaryType inner
        repeatFrom first (suffixStep inner start)) P := by
  have htail : Kind.bracketOpen ∉ primaryTails := by decide
  generalize hn : levels + 1 = n at ht
  induction ht generalizing ws with
  | @intro l t hproper _ hwithin ih _ =>
    obtain rfl : levels = l := by omega
    rcases suffix_cases hrank with ⟨span, element, rfl⟩ | ⟨span, target, index, rfl⟩ | hnil
    · have helement : 4 ≤ element.rank := of_decide_eq_true hproper
      rw [show (TypeExpr.array span false element).words
        = element.words ++ [Kind.bracketOpen.word, Kind.bracketClose.word] from rfl,
        List.append_assoc, List.cons_append, List.singleton_append]
      refine ih _ (.head _) helement (by exact htail) (fun a ha => ?_) rfl
      refine .yield (leaves_suffixStep_array start a) ?_ fun u hu => h u ?_
      · simp only [List.length_cons]
        omega
      · rw [hu, ha, TypeExpr.erase]
    · have htarget : 4 ≤ target.rank := of_decide_eq_true hproper
      rw [TypeExpr.words, List.append_assoc, List.cons_append, List.append_assoc,
        List.singleton_append]
      refine ih _ (.head _) htarget (by exact htail) (fun a ha => ?_) rfl
      refine .yield (leaves_suffixStep_index start a (hinner _ (hwithin _ (.head _)))) ?_
        fun u hu => h u ?_
      · simp only [List.length_append, List.length_cons]
        omega
      · rw [hu, ha, TypeExpr.erase]
    · refine .bind (leaves_primaryType hproper hrank hnil (fun u hu => hinner u (hwithin u hu)) hws)
        fun a ha => .repeatFrom (h a ha)

theorem leaves_suffixedType (hinner : ∀ u : TypeExpr, u.Admissible levels → inner.Accepts u)
    {t : TypeExpr} (ht : t.Admissible (levels + 1)) (hrank : 4 ≤ t.rank)
    (hrest : headKind rest ∉ operandTails) :
    Leaves (t.words ++ rest) rest (suffixedType inner) (·.erase = t.erase) := by
  obtain ⟨hbracket, hprimary⟩ := not_or.1 fun h => hrest (List.mem_cons.2 h)
  rw [suffixedType_eq]
  refine .checkpoint_bind fun start => leaves_suffixes hinner start ht hrank hprimary fun a ha => ?_
  refine .done (.peek_bind fun token htoken _ => ?_)
  rw [if_pos (by simp [htoken, hbracket])]
  exact .pure ⟨a, rfl, ha⟩

theorem readonlyFrom?_array {a element : TypeExpr} {span : Span}
    (h : a.erase = (TypeExpr.array span false element).erase) (start : Nat) :
    ∃ u, readonlyFrom? start a = some u ∧ u.erase = (TypeExpr.array span true element).erase := by
  cases a <;> simp_all [TypeExpr.erase, readonlyFrom?]

theorem readonlyFrom?_tuple {a : TypeExpr} {elements : List TypeExpr} {span : Span}
    (h : a.erase = (TypeExpr.tuple span false elements).erase) (start : Nat) :
    ∃ u, readonlyFrom? start a = some u ∧ u.erase = (TypeExpr.tuple span true elements).erase := by
  cases a <;> simp_all [TypeExpr.erase, readonlyFrom?]

theorem leaves_operatorType (hinner : ∀ u : TypeExpr, u.Admissible levels → inner.Accepts u)
    {t : TypeExpr} (ht : t.Admissible (levels + 1)) (hrank : 3 ≤ t.rank)
    (hrest : headKind rest ∉ operandTails) :
    Leaves (t.words ++ rest) rest (operatorType inner) (·.erase = t.erase) := by
  refine .peekKind_bind ?_
  by_cases hsuffixed : 4 ≤ t.rank
  · have hapart : Kind.kwKeyof ∉ startsOf 4 ∧ Kind.kwReadonly ∉ startsOf 4 := by decide
    have hstart := startsOf_subset hsuffixed (ht.startsLike.head rest)
    split
    · rename_i h
      exact absurd (h ▸ hstart) hapart.1
    · rename_i h
      exact absurd (h ▸ hstart) hapart.2
    · exact leaves_suffixedType hinner ht hsuffixed hrest
  · cases ht with
    | intro hproper hbeside hwithin =>
      cases t with
      | keyOf span operand =>
        have hoperand : 3 ≤ operand.rank := of_decide_eq_true hproper
        refine .spanned (.bind (.consume _) fun _ _ => .bind_pure
          ((hinner _ (hwithin _ (.head _))).operand hoperand rest hrest) fun a ha span => ?_)
        simp [TypeExpr.erase, ha]
      | array span readonly element =>
        cases readonly with
        | false => simp [TypeExpr.rank] at hsuffixed
        | true =>
          refine .bind (.consume _) fun t _ => .bind ((hinner _ (hwithin _ (.head _))).operand
            (by decide : 3 ≤ 4) rest hrest) fun a ha => ?_
          obtain ⟨u, hu, herase⟩ := readonlyFrom?_array ha t.span.start
          rw [hu]
          exact .pure herase
      | tuple span readonly elements =>
        cases readonly with
        | false => simp [TypeExpr.rank] at hsuffixed
        | true =>
          refine .bind (.consume _) fun t _ => .bind ((hinner _ (hwithin _ (.head _))).operand
            (by decide : 3 ≤ 4) rest hrest) fun a ha => ?_
          obtain ⟨u, hu, herase⟩ := readonlyFrom?_tuple ha t.span.start
          rw [hu]
          exact .pure herase
      | _ => simp [TypeExpr.rank] at hrank hsuffixed

/-! ## Unions and intersections -/

section

variable {sign : Kind} {make : Span → List TypeExpr → TypeExpr} {arm : Parser TypeExpr}

theorem leaves_joined_single {t : TypeExpr} (hstart : headKind (t.words ++ rest) ≠ sign)
    (hrest : headKind rest ≠ sign) (ht : Leaves (t.words ++ rest) rest arm (·.erase = t.erase)) :
    Leaves (t.words ++ rest) rest (joined sign make arm) (·.erase = t.erase) := by
  refine .checkpoint_bind fun start => .accept_of_ne hstart (.bind ht fun a ha => .peekKind_bind ?_)
  rw [if_pos (by simpa using hrest)]
  exact .pure ha

theorem leaves_joined {t u : TypeExpr} {ts : List TypeExpr}
    (hstart : ∀ ws, headKind (t.words ++ ws) ≠ sign) (hrest : headKind rest ≠ sign)
    (harm : ∀ v ∈ t :: u :: ts, ∀ ws, headKind ws = sign ∨ ws = rest →
      Leaves (v.words ++ ws) ws arm (·.erase = v.erase)) :
    Leaves (joinWords sign (typesWords (t :: u :: ts)) ++ rest) rest (joined sign make arm)
      fun a => ∃ span arms, a = make span arms ∧ eraseTypes arms = eraseTypes (t :: u :: ts) := by
  -- the words behind an arm are those of the other arms, each with its sign, and then the rest
  have hback : ∀ vs : List TypeExpr,
      headKind (vs.flatMap (fun v => sign.word :: v.words) ++ rest) = sign ∨
        vs.flatMap (fun v => sign.word :: v.words) ++ rest = rest := by
    intro vs
    cases vs with
    | nil => exact .inr rfl
    | cons v vs => exact .inl rfl
  rw [typesWords_eq_map, List.map_cons, joinWords, List.append_assoc, List.flatMap_map]
  refine .checkpoint_bind fun start => .accept_of_ne (hstart _) ?_
  refine .bind (harm t (.head _) _ (hback (u :: ts))) fun a ha => .peekKind_bind ?_
  rw [if_neg (by simp [headKind, Kind.word])]
  refine .bind (.collect_after hrest fun v hv vs => harm v (.tail _ hv) _ (hback vs))
    fun as has => ?_
  refine .since_bind fun span => .pure ⟨span, a :: as, rfl, ?_⟩
  rw [eraseTypes, eraseTypes, ha, eraseTypes_eq_map, eraseTypes_eq_map, map_eq_of_forall₂ has]

/-- A type of rank `r` whose arms are read by `arm`, or a type that binds more tightly. -/
theorem leaves_joinedType {r : Nat} {tails : List Kind}
    (harm : ∀ u : TypeExpr, u.Admissible (levels + 1) → r < u.rank → ∀ ws, headKind ws ∉ tails →
      Leaves (u.words ++ ws) ws arm (·.erase = u.erase))
    (hsign : sign ∉ tails ∧ sign ∉ startsOf 0) {t : TypeExpr} (ht : t.Admissible (levels + 1))
    (hrank : r ≤ t.rank)
    (harms : t.rank = r → ∃ arms, t.words = joinWords sign (typesWords arms) ∧ 2 ≤ arms.length ∧
      (∀ u ∈ arms, u.Admissible (levels + 1) ∧ r < u.rank) ∧
      ∀ span arms', eraseTypes arms' = eraseTypes arms → (make span arms').erase = t.erase)
    (hrest : headKind rest ∉ sign :: tails) :
    Leaves (t.words ++ rest) rest (joined sign make arm) (·.erase = t.erase) := by
  obtain ⟨hne, htails⟩ := not_or.1 fun h => hrest (List.mem_cons.2 h)
  have hstart : ∀ u : TypeExpr, u.Admissible (levels + 1) → ∀ ws, headKind (u.words ++ ws) ≠ sign :=
    fun u hu ws h => hsign.2 (h ▸ startsOf_subset (Nat.zero_le _) (hu.startsLike.head ws))
  rcases Nat.eq_or_lt_of_le hrank with hrank | hrank
  · obtain ⟨arms, hwords, hlength, harms, herase⟩ := harms hrank.symm
    obtain ⟨u, v, us, rfl⟩ := exists_cons_of_two_le hlength
    rw [hwords]
    refine (leaves_joined (hstart u (harms u (.head _)).1) hne fun w hw ws hws => ?_).mono
      fun a ha => ?_
    · refine harm w (harms w hw).1 (harms w hw).2 ws ?_
      rcases hws with hws | rfl
      · exact hws ▸ hsign.1
      · exact htails
    · obtain ⟨span, arms', rfl, harms'⟩ := ha
      exact herase span arms' harms'
  · exact leaves_joined_single (hstart t ht rest) hne (harm t ht hrank rest htails)

end

theorem leaves_intersectionType (hinner : ∀ u : TypeExpr, u.Admissible levels → inner.Accepts u)
    {t : TypeExpr} (ht : t.Admissible (levels + 1)) (hrank : 2 ≤ t.rank)
    (hrest : headKind rest ∉ .ampersand :: operandTails) :
    Leaves (t.words ++ rest) rest (intersectionType inner) (·.erase = t.erase) := by
  refine leaves_joinedType (fun u hu hrank ws hws => leaves_operatorType hinner hu hrank hws)
    (by decide) ht hrank (fun hrank => ?_) hrest
  cases ht with
  | intro hproper hbeside hwithin =>
    cases t with
    | intersection span arms =>
      have hshape := (Bool.and_eq_true_iff.1 hproper).2
      simp only [Bool.and_eq_true, decide_eq_true_eq, List.all_eq_true] at hshape
      refine ⟨arms, rfl, hshape.1, fun u hu => ⟨hbeside u hu, hshape.2 u hu⟩, ?_⟩
      intro span arms' harms'
      rw [TypeExpr.erase, TypeExpr.erase, harms']
    | array span readonly => cases readonly <;> simp [TypeExpr.rank] at hrank
    | tuple span readonly => cases readonly <;> simp [TypeExpr.rank] at hrank
    | _ => simp [TypeExpr.rank] at hrank

theorem leaves_unionType (hinner : ∀ u : TypeExpr, u.Admissible levels → inner.Accepts u)
    {t : TypeExpr} (ht : t.Admissible (levels + 1)) (hrank : 1 ≤ t.rank)
    (hrest : headKind rest ∉ .bar :: .ampersand :: operandTails) :
    Leaves (t.words ++ rest) rest (unionType inner) (·.erase = t.erase) := by
  refine leaves_joinedType (fun u hu hrank ws hws => leaves_intersectionType hinner hu hrank hws)
    (by decide) ht hrank (fun hrank => ?_) hrest
  cases ht with
  | intro hproper hbeside hwithin =>
    cases t with
    | union span arms =>
      have hshape := (Bool.and_eq_true_iff.1 hproper).2
      simp only [Bool.and_eq_true, decide_eq_true_eq, List.all_eq_true] at hshape
      refine ⟨arms, rfl, hshape.1, fun u hu => ⟨hbeside u hu, hshape.2 u hu⟩, ?_⟩
      intro span arms' harms'
      rw [TypeExpr.erase, TypeExpr.erase, harms']
    | array span readonly => cases readonly <;> simp [TypeExpr.rank] at hrank
    | tuple span readonly => cases readonly <;> simp [TypeExpr.rank] at hrank
    | _ => simp [TypeExpr.rank] at hrank

/-! ## Function types -/

theorem leaves_functionType {tps : Option (List TypeParameter)} {ps : List Parameter}
    {result : TypeExpr} {span : Span} (htypes : ∀ t ∈ signatureTypes tps ps, inner.Accepts t)
    (hresult : inner.Accepts result) (hrest : headKind rest ∉ typeTails) :
    Leaves ((TypeExpr.function span tps ps result).words ++ rest) rest (functionType inner)
      (·.erase = (TypeExpr.function span tps ps result).erase) := by
  refine .spanned (leaves_signature htypes fun tps' ps' htps hps => .require_bind rfl fun _ _ => ?_)
  refine .bind_pure (hresult.typeExpr rest hrest) fun a ha span => ?_
  simp [TypeExpr.erase, htps, hps, ha]

theorem leaves_constructorType {tps : Option (List TypeParameter)} {ps : List Parameter}
    {result : TypeExpr} {span : Span} (htypes : ∀ t ∈ signatureTypes tps ps, inner.Accepts t)
    (hresult : inner.Accepts result) (hrest : headKind rest ∉ typeTails) :
    Leaves ((TypeExpr.constructor span tps ps result).words ++ rest) rest (constructorType inner)
      (·.erase = (TypeExpr.constructor span tps ps result).erase) := by
  refine .spanned (.require_bind rfl fun _ _ => leaves_signature htypes fun tps' ps' htps hps =>
    .require_bind rfl fun _ _ => ?_)
  refine .bind_pure (hresult.typeExpr rest hrest) fun a ha span => ?_
  simp [TypeExpr.erase, htps, hps, ha]

theorem leaves_opensFunctionType_true (h : OpensParameters ws) :
    Leaves ws ws opensFunctionType (· = true) :=
  .of_goes le_rfl fun _ _ hs =>
    ⟨_, _, goes_opensFunctionType_true (hs.startsParameters_iff.2 h), hs, rfl⟩

theorem leaves_opensFunctionType_false (h : ¬ OpensParameters ws) :
    Leaves ws ws opensFunctionType (· = false) :=
  .of_goes le_rfl fun _ _ hs =>
    ⟨_, _, goes_opensFunctionType_false fun hstart => h (hs.startsParameters_iff.1 hstart), hs, rfl⟩

theorem leaves_anyType (hinner : ∀ u : TypeExpr, u.Admissible levels → inner.Accepts u)
    {t : TypeExpr} (ht : t.Admissible (levels + 1)) (hrest : headKind rest ∉ typeTails) :
    Leaves (t.words ++ rest) rest (anyType inner) (·.erase = t.erase) := by
  refine .peekKind_bind ?_
  by_cases hrank : 1 ≤ t.rank
  · have hapart : Kind.chevronLeft ∉ startsOf 1 ∧ Kind.kwNew ∉ startsOf 1 ∧
        Kind.kwAbstract ∉ startsOf 1 := by decide
    have hstart := startsOf_subset hrank (ht.startsLike.head rest)
    have htails : .bar :: .ampersand :: operandTails ⊆ typeTails := by decide
    have hunion := leaves_unionType hinner ht hrank fun h => hrest (htails h)
    split
    · rename_i h
      exact absurd (h ▸ hstart) hapart.1
    · rename_i h
      exact absurd (h ▸ hstart) hapart.2.1
    · rename_i h
      exact absurd (h ▸ hstart) hapart.2.2
    · rename_i h
      have harrow : headKind rest ≠ .equalsChevronRight := fun harrow =>
        hrest (harrow ▸ (by decide : Kind.equalsChevronRight ∈ typeTails))
      refine .bind (leaves_opensFunctionType_false (ht.not_opensParameters hrank harrow h))
        fun a ha => ?_
      rw [ha]
      exact hunion
    · exact hunion
  · cases ht with
    | intro hproper hbeside hwithin =>
      cases t with
      | function span tps ps result =>
        obtain ⟨htypes, hresult⟩ := List.forall_mem_append.1 hwithin
        have hfunction : Leaves ((TypeExpr.function span tps ps result).words ++ rest) rest
            (functionType inner) (·.erase = (TypeExpr.function span tps ps result).erase) :=
          leaves_functionType (fun t ht => hinner t (htypes t ht))
            (hinner result (hresult result (.head _))) hrest
        cases tps with
        | some tps => exact hfunction
        | none =>
          have hopens := opensParameters_function span ps result rest
          refine .bind (leaves_opensFunctionType_true hopens) fun a ha => ?_
          rw [ha]
          exact hfunction
      | constructor span tps ps result =>
        obtain ⟨htypes, hresult⟩ := List.forall_mem_append.1 hwithin
        exact leaves_constructorType (fun t ht => hinner t (htypes t ht))
          (hinner result (hresult result (.head _))) hrest
      | array span readonly => cases readonly <;> simp [TypeExpr.rank] at hrank
      | tuple span readonly => cases readonly <;> simp [TypeExpr.rank] at hrank
      | _ => simp [TypeExpr.rank] at hrank

end Parser

/-- The parsers for types with room for so many levels of nesting read every type of the grammar
that takes up no more. -/
theorem Level.accepts_ofRoom {levels : Nat} {t : TypeExpr} (h : t.Admissible levels) :
    (Level.ofRoom levels).Accepts t := by
  induction levels generalizing t with
  | zero => cases h
  | succ levels ih =>
    exact {
      starts := fun rest => startsOf_subset (Nat.zero_le _) (h.startsLike.head rest)
      typeExpr := fun rest hrest => Parser.leaves_anyType (fun u => ih) h hrest
      operand := fun hrank rest hrest => Parser.leaves_operatorType (fun u => ih) h hrank hrest }

/-- A type of the grammar that is not nested too deeply, written with one space between its tokens,
is read as the same type up to spans, and nothing of the text is left. -/
theorem typeExpr_render {t : TypeExpr} (h : t.Admissible maxNesting) :
    ∃ t' b, (Level.ofRoom maxNesting).typeExpr (Buffer.ofSource t.render) = .ok t' b ∧
      t'.erase = t.erase ∧ b.look.1.kind = .endOfFile := by
  have hleaves := (Level.accepts_ofRoom h).typeExpr [] (by decide)
  rw [List.append_nil] at hleaves
  obtain ⟨t', b, hrun, ⟨s, i, hstands, hend, -⟩, herase⟩ :=
    hleaves _ (Buffer.faces_ofSource h.spelt)
  exact ⟨t', b, hrun, herase, hstands.look.1 ▸ hend⟩

/-- A type with parts of every kind. -/
def manyParts : TypeExpr :=
  let named (name : String) : TypeExpr := .reference .nowhere (.identifier name) none
  .function .nowhere (some [⟨.nowhere, "a", some (named "C"), some (named "D")⟩])
    [⟨.nowhere, "x", true, false, some (.array .nowhere false (named "a"))⟩,
      ⟨.nowhere, "y", false, true, some (.array .nowhere true (named "B"))⟩]
    (.object .nowhere [
      .property .nowhere true "k\n" true (some (.union .nowhere [
        .intersection .nowhere [.keyOf .nowhere (named "T"),
          .parenthesized .nowhere (.constructor .nowhere none [] (named "R"))],
        .literal .nowhere (.number "-1.5"), .literal .nowhere (.string "\"")])),
      .method .nowhere "m" false none [] (some (.this .nowhere)),
      .call .nowhere none [⟨.nowhere, "z", false, false, none⟩] none,
      .construct .nowhere (some []) [] (some
        (.reference .nowhere (.qualified (.identifier "A") "B") (some [named "C"]))),
      .index .nowhere false "key" (.indexedAccess .nowhere (.query .nowhere (.identifier "v"))
        (.literal .nowhere (.boolean true))) (.tuple .nowhere true [named "A", named "B"])])

theorem typeExpr_render_manyParts :
    manyParts.Admissible maxNesting ∧
      manyParts.render = "< a extends C = D > ( x ? : a [ ] , ... y : readonly B [ ] ) => \x7b " ++
        "readonly \"k\\n\" ? : keyof T & ( new ( ) => R ) | - 1.5 | \"\\\"\" ; " ++
        "\"m\" ( ) : this ; ( z ) ; new < > ( ) : A . B < C > ; " ++
        "[ key : typeof v [ true ] ] : readonly [ A , B ] ; \x7d" ∧
      ∃ t b, (Level.ofRoom maxNesting).typeExpr (Buffer.ofSource manyParts.render) = .ok t b ∧
        t.erase = manyParts.erase ∧ b.look.1.kind = .endOfFile := by
  have h : manyParts.isAdmissible 10 maxNesting := by decide +kernel
  exact ⟨TypeExpr.admissible_of_isAdmissible h, by decide +kernel,
    typeExpr_render (TypeExpr.admissible_of_isAdmissible h)⟩

end Ambient
