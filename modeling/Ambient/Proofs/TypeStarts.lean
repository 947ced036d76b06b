import Ambient.Proofs.Backtracking
import Ambient.Proofs.Facing
import Ambient.Proofs.Rendering
/-!
# How written types start

The kind of the first word of a type says how tightly the type can bind (`StartsLike`). At a
parenthesis the lookahead of the parser is right about written types: the parameters of a function
type look like parameters (`opensParameters_function`), and a type in parentheses does not
(`TypeExpr.Admissible.not_opensParameters`).
-/

namespace Ambient

/-! ## What can start and what can continue a type -/

/-- The kinds of word that a type can start with whose outermost operator binds as tightly as `rank`
or tighter. -/
def startsOf (rank : Nat) : List Kind :=
  (if rank = 0 then [.chevronLeft, .kwNew] else []) ++
    ((if rank < 4 then [.kwKeyof, .kwReadonly] else []) ++
      [.identifier, .literalString, .literalNumber, .hyphen, .literalTrue, .literalFalse,
        .bracketOpen, .braceOpen, .parenthesisOpen, .kwTypeof, .kwThis])

/-- The kinds of word that a primary type goes on with. -/
def primaryTails : List Kind := [.dot, .chevronLeft]

/-- The kinds of word that the operand of an operator goes on with. -/
def operandTails : List Kind := .bracketOpen :: primaryTails

/-- The kinds of word that a type goes on with, and the arrow, which makes a parameter list of what
stands before it. -/
def typeTails : List Kind := [.ampersand, .bar, .equalsChevronRight] ++ operandTails

/-! ## How types start -/

theorem startsOf_subset {rank rank' : Nat} (h : rank' ≤ rank) : startsOf rank ⊆ startsOf rank' := by
  intro k hk
  unfold startsOf at hk ⊢
  rcases List.mem_append.1 hk with hk | hk
  · split at hk
    · rw [if_pos (by omega)]
      exact List.mem_append_left _ hk
    · exact nomatch hk
  refine List.mem_append_right _ ?_
  rcases List.mem_append.1 hk with hk | hk
  · split at hk
    · rw [if_pos (by omega)]
      exact List.mem_append_left _ hk
    · exact nomatch hk
  · exact List.mem_append_right _ hk

/-- The words start like a type of this rank. If the first one can name a parameter, then the second
one, if there is one, does not come behind the name of a parameter. -/
def StartsLike (rank : Nat) (ws : List Word) : Prop :=
  ∃ w back, ws = w :: back ∧ w.kind ∈ startsOf rank ∧
    (Parser.isParameterName w.kind → ∀ v ∈ back.head?, v.kind ∉ Parser.stops)

namespace StartsLike

variable {rank rank' : Nat} {ws us : List Word}

theorem append (h : StartsLike rank ws) (hrank : rank' ≤ rank)
    (hus : ∀ v ∈ us.head?, v.kind ∉ Parser.stops) : StartsLike rank' (ws ++ us) := by
  obtain ⟨w, back, rfl, hw, hback⟩ := h
  refine ⟨w, back ++ us, rfl, startsOf_subset hrank hw, fun hname v hv => ?_⟩
  cases back with
  | nil => exact hus v hv
  | cons v' back => exact hback hname v hv

theorem sign {kind : Kind} (hkind : kind ∈ startsOf rank)
    (hname : Parser.isParameterName kind = false) : StartsLike rank (kind.word :: us) :=
  ⟨_, _, rfl, hkind, fun h => absurd (hname.symm.trans h) Bool.false_ne_true⟩

theorem operator {kind : Kind} (hkind : kind ∈ startsOf rank) (h : StartsLike rank' us) :
    StartsLike rank (kind.word :: us) := by
  have happart : ∀ k ∈ startsOf 0, k ∉ Parser.stops := by decide
  obtain ⟨w, back, rfl, hw, -⟩ := h
  refine ⟨_, _, rfl, hkind, fun _ v hv => ?_⟩
  obtain rfl : w = v := by simpa using hv
  exact happart _ (startsOf_subset (Nat.zero_le _) hw)

theorem head (h : StartsLike rank ws) (us : List Word) : headKind (ws ++ us) ∈ startsOf rank := by
  obtain ⟨w, back, rfl, hw, -⟩ := h
  exact hw

theorem name (n : EntityName) (hus : ∀ v ∈ us.head?, v.kind ∉ Parser.stops) :
    StartsLike 4 (n.words ++ us) := by
  have hdot : Kind.dot ∉ Parser.stops := by decide
  induction n generalizing us with
  | identifier n => exact ⟨_, _, rfl, (by decide : Kind.identifier ∈ startsOf 4), fun _ => hus⟩
  | qualified left right ih =>
    rw [EntityName.words, List.append_assoc]
    refine ih fun v hv => ?_
    obtain rfl : Kind.dot.word = v := by simpa using hv
    exact hdot

theorem join {sign : Kind} (hsign : sign ∉ Parser.stops) {t : TypeExpr} {ts : List TypeExpr}
    (h : StartsLike rank t.words) (hrank : rank' ≤ rank) :
    StartsLike rank' (joinWords sign (typesWords (t :: ts))) := by
  refine h.append hrank fun v hv => ?_
  cases ts with
  | nil => exact nomatch hv
  | cons u ts =>
    obtain rfl : sign.word = v := by simpa [typesWords] using hv
    exact hsign

end StartsLike

theorem exists_cons_of_two_le {ι : Type} {xs : List ι} (h : 2 ≤ xs.length) :
    ∃ x y ys, xs = x :: y :: ys := by
  match xs with
  | x :: y :: ys => exact ⟨x, y, ys, rfl⟩

theorem TypeExpr.Admissible.startsLike {levels : Nat} {t : TypeExpr} (h : t.Admissible levels) :
    StartsLike t.rank t.words := by
  have hbracket : ∀ v ∈ [Kind.bracketOpen.word].head?, v.kind ∉ Parser.stops := by decide
  induction h with
  | @intro levels t hproper _ _ hbeside hwithin =>
    have hshape := (Bool.and_eq_true_iff.1 hproper).2
    cases t with
    | reference span name arguments =>
      refine .name name ?_
      cases arguments with
      | none => exact nofun
      | some ts => exact (by decide : ∀ v ∈ [Kind.chevronLeft.word].head?, v.kind ∉ Parser.stops)
    | literal span value =>
      cases value with
      | string value =>
        exact ⟨_, _, rfl, (by decide : Kind.literalString ∈ startsOf 4), fun h => nomatch h⟩
      | number raw =>
        simp only [TypeExpr.words, Literal.words, numberWords]
        split
        · exact .sign (by decide : Kind.hyphen ∈ startsOf 4) rfl
        · exact ⟨_, _, rfl, (by decide : Kind.literalNumber ∈ startsOf 4), fun h => nomatch h⟩
      | boolean value =>
        cases value with
        | true => exact .sign (by decide : Kind.literalTrue ∈ startsOf 4) rfl
        | false => exact .sign (by decide : Kind.literalFalse ∈ startsOf 4) rfl
    | array span readonly element =>
      cases readonly with
      | true => exact .operator (by decide : Kind.kwReadonly ∈ startsOf 3) (hwithin _ (.head _))
      | false => exact (hbeside element (.head _)).append (of_decide_eq_true hshape) hbracket
    | tuple span readonly elements =>
      cases readonly with
      | true => exact .operator (by decide : Kind.kwReadonly ∈ startsOf 3) (hwithin _ (.head _))
      | false => exact .sign (by decide : Kind.bracketOpen ∈ startsOf 4) rfl
    | union span arms =>
      simp only [Bool.and_eq_true, decide_eq_true_eq, List.all_eq_true] at hshape
      obtain ⟨t, u, ts, rfl⟩ := exists_cons_of_two_le hshape.1
      have hrank := hshape.2 t (.head _)
      exact .join (by decide) (hbeside t (.head _)) (show 1 ≤ t.rank by omega)
    | intersection span arms =>
      simp only [Bool.and_eq_true, decide_eq_true_eq, List.all_eq_true] at hshape
      obtain ⟨t, u, ts, rfl⟩ := exists_cons_of_two_le hshape.1
      have hrank := hshape.2 t (.head _)
      exact .join (by decide) (hbeside t (.head _)) (show 2 ≤ t.rank by omega)
    | function span typeParameters parameters result =>
      cases typeParameters with
      | none => exact .sign (by decide : Kind.parenthesisOpen ∈ startsOf 0) rfl
      | some ps => exact .sign (by decide : Kind.chevronLeft ∈ startsOf 0) rfl
    | constructor => exact .sign (by decide : Kind.kwNew ∈ startsOf 0) rfl
    | object => exact .sign (by decide : Kind.braceOpen ∈ startsOf 4) rfl
    | parenthesized => exact .sign (by decide : Kind.parenthesisOpen ∈ startsOf 4) rfl
    | indexedAccess span target index =>
      exact (hbeside target (.head _)).append (of_decide_eq_true hshape) hbracket
    | query => exact .sign (by decide : Kind.kwTypeof ∈ startsOf 4) rfl
    | keyOf => exact .operator (by decide : Kind.kwKeyof ∈ startsOf 3) (hwithin _ (.head _))
    | this => exact ⟨_, _, rfl, (by decide : Kind.kwThis ∈ startsOf 4), fun _ => nofun⟩

/-! ## Parentheses -/

theorem headKind_entityName (n : EntityName) (ws : List Word) :
    headKind (n.words ++ ws) = .identifier := by
  induction n generalizing ws with
  | identifier n => rfl
  | qualified left right ih => rw [EntityName.words, List.append_assoc, ih]

/-- The first of the words, a parenthesis, is followed by `)`, by `...`, or by the name of a
parameter and what can come behind one: `)` only with a `=>` behind it. -/
def OpensParameters (ws : List Word) : Prop :=
  headKind ws.tail = .parenthesisClose ∨ headKind ws.tail = .dotDotDot ∨
    Parser.isParameterName (headKind ws.tail) ∧
      (headKind ws.tail.tail ∈ [.colon, .comma, .question, .equals] ∨
        headKind ws.tail.tail = .parenthesisClose ∧
          headKind ws.tail.tail.tail = .equalsChevronRight)

theorem Scanner.Spells.startsParameters_iff {s : Scanner} {i : Nat} {ws : List Word}
    (h : s.Spells i ws) : s.StartsParameters i ↔ OpensParameters ws := by
  unfold StartsParameters OpensParameters
  rw [h.succ.kind, h.succ.succ.kind, h.succ.succ.succ.kind]

/-- The parameters of a function type look like parameters. -/
theorem opensParameters_function (span : Span) (ps : List Parameter) (result : TypeExpr)
    (rest : List Word) :
    OpensParameters ((TypeExpr.function span none ps result).words ++ rest) := by
  cases ps with
  | nil => exact .inl rfl
  | cons p ps =>
    obtain ⟨span, name, optional, isRest, type⟩ := p
    cases isRest with
    | true => exact .inr (.inl rfl)
    | false =>
      refine .inr (.inr ⟨rfl, ?_⟩)
      cases optional with
      | true => exact .inl (.tail _ (.tail _ (.head _)))
      | false =>
        cases type with
        | some t => exact .inl (.head _)
        | none =>
          cases ps with
          | nil => exact .inr ⟨rfl, rfl⟩
          | cons p ps => exact .inl (.tail _ (.head _))

/-- A type in parentheses does not look like the parameters of a function type. -/
theorem TypeExpr.Admissible.not_opensParameters {levels : Nat} {t : TypeExpr}
    (h : t.Admissible levels) (hrank : 1 ≤ t.rank) {rest : List Word}
    (hrest : headKind rest ≠ .equalsChevronRight)
    (hopen : headKind (t.words ++ rest) = .parenthesisOpen) :
    ¬ OpensParameters (t.words ++ rest) := by
  induction h generalizing rest with
  | @intro levels t hproper hbeside hwithin ih _ =>
    have hshape := (Bool.and_eq_true_iff.1 hproper).2
    have hsigns : Kind.bracketOpen ≠ .equalsChevronRight ∧ Kind.bar ≠ .equalsChevronRight ∧
        Kind.ampersand ≠ .equalsChevronRight := by decide
    cases t with
    | parenthesized span u =>
      have hapart : ∀ k ∈ startsOf 0, k ≠ .parenthesisClose ∧ k ≠ .dotDotDot := by decide
      have hclosed : Kind.parenthesisClose ∉ [.colon, .comma, .question, .equals] := by decide
      obtain ⟨w, back, hwords, hw, hback⟩ := (hwithin u (.head _)).startsLike
      have hw := hapart _ (startsOf_subset (Nat.zero_le _) hw)
      rw [TypeExpr.words, hwords]
      rintro (hclose | hdots | ⟨hname, hnext⟩)
      · exact hw.1 hclose
      · exact hw.2 hdots
      · cases back with
        | nil =>
          rcases hnext with hnext | ⟨-, harrow⟩
          · exact hclosed hnext
          · exact hrest harrow
        | cons v back =>
          refine hback hname v rfl ?_
          rcases hnext with hnext | ⟨hclose, -⟩
          · exact List.mem_append_left [.parenthesisClose, .dotDotDot] hnext
          · exact (by simp [Parser.stops, show v.kind = _ from hclose])
    | array span readonly element =>
      cases readonly with
      | true => cases hopen
      | false =>
        have hrank : 4 ≤ element.rank := of_decide_eq_true hshape
        rw [show (array span false element).words
          = element.words ++ [Kind.bracketOpen.word, Kind.bracketClose.word] from rfl,
          List.append_assoc] at hopen ⊢
        exact ih element (.head _) (by omega) (by exact hsigns.1) hopen
    | indexedAccess span target index =>
      have hrank : 4 ≤ target.rank := of_decide_eq_true hshape
      rw [TypeExpr.words, List.append_assoc] at hopen ⊢
      exact ih target (.head _) (by omega) (by exact hsigns.1) hopen
    | union span arms =>
      simp only [Bool.and_eq_true, decide_eq_true_eq, List.all_eq_true] at hshape
      obtain ⟨t, u, ts, rfl⟩ := exists_cons_of_two_le hshape.1
      have hrank := hshape.2 t (.head _)
      rw [TypeExpr.words, typesWords, joinWords, List.append_assoc] at hopen ⊢
      exact ih t (.head _) (by omega) (by exact hsigns.2.1) hopen
    | intersection span arms =>
      simp only [Bool.and_eq_true, decide_eq_true_eq, List.all_eq_true] at hshape
      obtain ⟨t, u, ts, rfl⟩ := exists_cons_of_two_le hshape.1
      have hrank := hshape.2 t (.head _)
      rw [TypeExpr.words, typesWords, joinWords, List.append_assoc] at hopen ⊢
      exact ih t (.head _) (by omega) (by exact hsigns.2.2) hopen
    | function => simp [TypeExpr.rank] at hrank
    | constructor => simp [TypeExpr.rank] at hrank
    -- no other type starts with a parenthesis
    | reference span name arguments =>
      rw [TypeExpr.words, List.append_assoc, headKind_entityName] at hopen
      cases hopen
    | literal span value =>
      cases value with
      | string => cases hopen
      | boolean value => cases value <;> cases hopen
      | number raw =>
        simp only [TypeExpr.words, Literal.words, numberWords] at hopen
        split at hopen <;> cases hopen
    | tuple span readonly => cases readonly <;> cases hopen
    | object => cases hopen
    | query => cases hopen
    | keyOf => cases hopen
    | this => cases hopen

end Ambient
