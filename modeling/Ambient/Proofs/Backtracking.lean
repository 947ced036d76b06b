import Ambient.Proofs.AgreementGrammar
/-!
# Looking ahead instead of backtracking

At a parenthesis the parser of types decides by the next three tokens whether it reads a function
type or a type in parentheses, and never goes back on it. A parser that tries the function type
first and goes back if that fails accepts the same files and gives the same trees
(`parse_iff_parseBacktracking`).

The lookahead says yes wherever a function type can be read at all. Where it says yes and the
function type is broken, backtracking reads the parenthesis as a type only if it is a single name
before a `=>`, and so goes astray there: nothing that follows accepts the `=>`.
-/

namespace Ambient

/-! ## The parser that backtracks -/

/-- Runs `p`; if it fails, sets the cursor back and runs `q`. -/
def Parser.orElse {α : Type} (p q : Parser α) : Parser α := fun b =>
  match p b with
  | .ok a b' => .ok a b'
  | .fail _ b' => q { b' with cursor := b.cursor }

/-- Any type, where a parenthesis is read as the start of a function type if that succeeds. -/
def Parser.anyTypeBacktracking (inner : Level) : Parser TypeExpr := do
  if (← peekKind) == .parenthesisOpen then orElse (functionType inner) (unionType inner)
  else anyType inner

/-- The parsers that backtrack, for types that may be nested `room` levels deep. -/
def Level.backtracking : Nat → Level
  | 0 => ⟨Parser.tooDeep, Parser.tooDeep⟩
  | room + 1 =>
    let inner := backtracking room
    ⟨Parser.anyTypeBacktracking inner, Parser.operatorType inner⟩

/-- Parses a declaration file, backtracking at parentheses in types. -/
def parseBacktracking (source : String) : Except SyntaxError File :=
  match Parser.file Level.backtracking maxNesting (Buffer.ofSource source) with
  | .ok file _ => .ok file
  | .fail e _ => .error e

/-! ## What the lookahead says -/

/-- The parenthesis on token `i` is followed by `)`, by `...`, or by the name of a parameter and
what can come behind one: `)` only with a `=>` behind it. -/
def Scanner.StartsParameters (s : Scanner) (i : Nat) : Prop :=
  (s.token (s.succ i)).kind = .parenthesisClose ∨ (s.token (s.succ i)).kind = .dotDotDot ∨
    Parser.isParameterName (s.token (s.succ i)).kind ∧
      ((s.token (s.succ (s.succ i))).kind ∈ [.colon, .comma, .question, .equals] ∨
        (s.token (s.succ (s.succ i))).kind = .parenthesisClose ∧
          (s.token (s.succ (s.succ (s.succ i)))).kind = .equalsChevronRight)

namespace Parser

variable {s : Scanner} {i : Nat}

theorem goes_opensFunctionType_true (h : s.StartsParameters i) :
    Goes s i i opensFunctionType true := by
  unfold Scanner.StartsParameters at h
  refine .bind .peek4 ?_
  dsimp only
  split
  · exact .pure true
  · exact .pure true
  · split
    · split
      · exact .pure true
      · exact .pure true
      · exact .pure true
      · exact .pure true
      · have harrow : (s.token (s.succ (s.succ (s.succ i)))).kind = .equalsChevronRight := by
          simp_all
        rw [harrow]
        exact .pure true
      · simp_all
    · simp_all

theorem goes_opensFunctionType_false (h : ¬ s.StartsParameters i) :
    Goes s i i opensFunctionType false := by
  unfold Scanner.StartsParameters at h
  refine .bind .peek4 ?_
  dsimp only
  split
  · simp_all
  · simp_all
  · split
    · split
      · simp_all
      · simp_all
      · simp_all
      · simp_all
      · have harrow :
            ((s.token (s.succ (s.succ (s.succ i)))).kind == .equalsChevronRight) = false := by
          simp_all
        rw [harrow]
        exact .pure false
      · exact .pure false
    · exact .pure false

/-! ## Where the lookahead says no -/

theorem arrives_parameter (inner : Level) (hrest : (s.token i).kind ≠ .dotDotDot)
    (hquestion : isParameterName (s.token i).kind → (s.token (s.succ i)).kind ≠ .question)
    (hcolon : isParameterName (s.token i).kind → (s.token (s.succ i)).kind ≠ .colon) :
    (parameter inner).Arrives s i fun _ j => isParameterName (s.token i).kind ∧ j = s.succ i := by
  unfold parameter
  refine .spanned (.accept_of_ne hrest (.requireWhere_bind fun hname => ?_))
  refine .accept_of_ne (hquestion hname) (.after_of_ne (hcolon hname) ?_)
  exact .pure fun _ => ⟨hname, rfl⟩

/-- There is no function type where the lookahead says no. -/
theorem functionType_fails (inner : Level) (h : ¬ s.StartsParameters i)
    (hopen : (s.token i).kind = .parenthesisOpen) :
    (functionType inner).Arrives s i fun _ _ => False := by
  simp only [Scanner.StartsParameters, not_or, not_and, List.mem_cons, List.not_mem_nil] at h
  obtain ⟨hclose, hrest, hname⟩ := h
  have hparameter := arrives_parameter inner hrest (fun h => (hname h).1.2.2.1)
    (fun h => (hname h).1.1)
  unfold functionType typeParameters parameters commaList
  refine .spanned (.after_of_ne (by simp [hopen]) ?_)
  simp only [bind_assoc]
  refine .require_bind fun _ => .bind (P := fun _ j => j = s.succ (s.succ (s.succ i)) ∧
    (s.token j).kind ≠ .equalsChevronRight) (.repeatFrom (.accept_of_ne hclose ?_)) fun _ j hj => ?_
  · refine .bind hparameter fun a j hj => ?_
    obtain ⟨hparameter, rfl⟩ := hj
    refine .accept_of_ne (hname hparameter).1.2.1 (.require_bind fun hend => ?_)
    exact .pure ⟨_, rfl, rfl, (hname hparameter).2 hend⟩
  · rw [pure_bind]
    exact .require_bind fun harrow => absurd harrow hj.2

/-! ## Where the lookahead says yes -/

section

variable {inner : Level} {P : TypeExpr → Nat → Prop}

theorem arrives_suffixedType (hprimary : (primaryType inner).Arrives s i P)
    (hend : ∀ type j, P type j → (s.token j).kind ≠ .bracketOpen) :
    (suffixedType inner).Arrives s i P := by
  unfold suffixedType
  refine .behind .checkpoint (.bind hprimary fun type j hj => .repeatFrom (.behind .peek ?_))
  rw [if_pos (by simp [hend type j hj])]
  exact .pure ⟨type, rfl, hj⟩

theorem arrives_operatorType (hprimary : (primaryType inner).Arrives s i P)
    (hoperand : (s.token i).kind ∈ [.kwKeyof, .kwReadonly] →
      inner.operand.Arrives s (s.succ i) fun _ _ => False)
    (hend : ∀ type j, P type j → (s.token j).kind ≠ .bracketOpen) :
    (operatorType inner).Arrives s i P := by
  unfold operatorType
  refine .behind .peekKind ?_
  split
  · rename_i hkeyof
    exact .spanned (.behind .consume (.bind (hoperand (by simp [hkeyof])) fun _ _ h => h.elim))
  · rename_i hreadonly
    exact .behind .consume (.bind (hoperand (by simp [hreadonly])) fun _ _ h => h.elim)
  · exact arrives_suffixedType hprimary hend

theorem arrives_joined {sign : Kind} {make : Span → List TypeExpr → TypeExpr}
    {arm : Parser TypeExpr} (harm : arm.Arrives s i P) (hstart : (s.token i).kind ≠ sign)
    (hend : ∀ type j, P type j → (s.token j).kind ≠ sign) :
    (joined sign make arm).Arrives s i P := by
  unfold joined
  refine .behind .checkpoint (.accept_of_ne hstart (.bind harm fun type j hj => ?_))
  refine .behind .peekKind ?_
  rw [if_pos (by simp [hend type j hj])]
  exact .pure hj

/-- A single primary type. -/
theorem arrives_unionType (hprimary : (primaryType inner).Arrives s i P)
    (hstart : (s.token i).kind ∉ [.ampersand, .bar])
    (hoperand : (s.token i).kind ∈ [.kwKeyof, .kwReadonly] →
      inner.operand.Arrives s (s.succ i) fun _ _ => False)
    (hend : ∀ type j, P type j → (s.token j).kind ∉ [.bracketOpen, .ampersand, .bar]) :
    (unionType inner).Arrives s i P := by
  simp only [List.mem_cons, List.not_mem_nil, not_or] at hstart hend
  have hoperator := arrives_operatorType hprimary hoperand fun type j hj => (hend type j hj).1
  have harm : (intersectionType inner).Arrives s i P :=
    arrives_joined hoperator hstart.1 fun type j hj => (hend type j hj).2.1
  exact arrives_joined harm hstart.2.1 fun type j hj => (hend type j hj).2.2.1

/-- The kinds of what can come behind the name of a parameter, and of `...`. None of them starts a
type. -/
def stops : List Kind := [.colon, .comma, .question, .equals, .parenthesisClose, .dotDotDot]

theorem primaryType_fails (hstop : (s.token i).kind ∈ stops) :
    (primaryType inner).Arrives s i fun _ _ => False := by
  unfold primaryType
  refine .behind .peek ?_
  simp only [stops, List.mem_cons, List.not_mem_nil, or_false] at hstop
  rcases hstop with h | h | h | h | h | h
  all_goals
    rw [h]
    exact .failWith

theorem arrives_entityName (hdot : (s.token (s.succ i)).kind ≠ .dot) :
    entityName.Arrives s i fun _ j => j = s.succ i := by
  unfold entityName name nameWithSpan
  simp only [bind_assoc]
  refine .requireWhere_bind fun _ => ?_
  simp only [pure_bind]
  refine .repeatFrom (.behind .peekKind ?_)
  rw [if_neg (by simpa using hdot)]
  exact .pure ⟨_, rfl, rfl⟩

theorem arrives_primaryType (hname : isParameterName (s.token i).kind)
    (hdot : (s.token (s.succ i)).kind ≠ .dot)
    (hchevron : (s.token (s.succ i)).kind ≠ .chevronLeft) :
    (primaryType inner).Arrives s i fun _ j => j = s.succ i := by
  have hreference : (typeReference inner).Arrives s i fun _ j => j = s.succ i := by
    refine .spanned (.bind (arrives_entityName hdot) fun _ j hj => ?_)
    subst hj
    exact .after_of_ne hchevron (.pure fun _ => rfl)
  unfold primaryType
  refine .behind .peek ?_
  cases hkind : (s.token i).kind
  case kwThis => exact .spanned (.behind .consume (.pure fun _ => rfl))
  -- every other kind names no parameter or is the kind of a name
  all_goals
    rw [hkind] at hname
    first
    | exact absurd hname (by decide)
    | exact hreference

theorem arrives_anyTypeBacktracking (hunion : (unionType inner).Arrives s i P)
    (hkind : (s.token i).kind ∉ [.parenthesisOpen, .chevronLeft, .kwNew])
    (hnew : (s.token i).kind = .kwAbstract → (s.token (s.succ i)).kind ≠ .kwNew) :
    (anyTypeBacktracking inner).Arrives s i P := by
  simp only [List.mem_cons, List.not_mem_nil, not_or] at hkind
  unfold anyTypeBacktracking anyType
  refine .behind .peekKind ?_
  rw [if_neg (by simp [hkind.1])]
  refine .behind .peekKind ?_
  split
  · exact absurd ‹_› hkind.2.1
  · exact absurd ‹_› hkind.2.2.1
  · refine .behind .peek2 ?_
    dsimp only
    rw [if_neg (by simpa using hnew ‹_›)]
    exact hunion
  · exact absurd ‹_› hkind.1
  · exact hunion

theorem operand_fails (room : Nat) (hstop : (s.token i).kind ∈ stops) :
    (Level.backtracking room).operand.Arrives s i fun _ _ => False := by
  have hapart : ∀ k ∈ [Kind.kwKeyof, .kwReadonly], k ∉ stops := by decide
  cases room with
  | zero => exact .behind .peek .failWith
  | succ room =>
    exact arrives_operatorType (primaryType_fails hstop) (fun h => absurd hstop (hapart _ h))
      fun _ _ h => h.elim

theorem typeExpr_fails (room : Nat) (hstop : (s.token i).kind ∈ stops) :
    (Level.backtracking room).typeExpr.Arrives s i fun _ _ => False := by
  have hapart : ∀ k ∈ stops, k ∉ [Kind.ampersand, .bar] ∧ k ∉ [Kind.kwKeyof, .kwReadonly] ∧
      k ∉ [Kind.parenthesisOpen, .chevronLeft, .kwNew] ∧ k ≠ .kwAbstract := by decide
  obtain ⟨hsign, hoperator, hkind, habstract⟩ := hapart _ hstop
  cases room with
  | zero => exact .behind .peek .failWith
  | succ room =>
    refine arrives_anyTypeBacktracking ?_ hkind fun h => absurd h habstract
    exact arrives_unionType (primaryType_fails hstop) hsign (fun h => absurd h hoperator)
      fun _ _ h => h.elim

/-- A name with a stop behind it is read as a type of its own. -/
theorem arrives_typeExpr (room : Nat) (hname : isParameterName (s.token i).kind)
    (hstop : (s.token (s.succ i)).kind ∈ stops) :
    (Level.backtracking room).typeExpr.Arrives s i fun _ j => j = s.succ i := by
  have hsign : ∀ k ∈ [Kind.ampersand, .bar], ¬ isParameterName k := by decide
  have hkind : ∀ k ∈ [Kind.parenthesisOpen, .chevronLeft, .kwNew], ¬ isParameterName k := by decide
  have hnext : ∀ k ∈ stops, k ≠ .dot ∧ k ≠ .chevronLeft ∧ k ≠ .kwNew ∧
      k ∉ [Kind.bracketOpen, .ampersand, .bar] := by decide
  obtain ⟨hdot, hchevron, hnew, hend⟩ := hnext _ hstop
  cases room with
  | zero => exact .behind .peek .failWith
  | succ room =>
    refine arrives_anyTypeBacktracking ?_ (fun h => hkind _ h hname) fun _ => hnew
    refine arrives_unionType (arrives_primaryType hname hdot hchevron) (fun h => hsign _ h hname)
      (fun _ => operand_fails room hstop) fun _ j hj => ?_
    rw [hj]
    exact hend

/-- Where the lookahead says yes, a parenthesis is read as a type only in front of a `=>`. -/
theorem unionType_astray (room : Nat) (h : s.StartsParameters i)
    (hopen : (s.token i).kind = .parenthesisOpen) :
    (unionType (Level.backtracking room)).Arrives s i fun _ j =>
      (s.token j).kind = .equalsChevronRight := by
  have hinner : (Level.backtracking room).typeExpr.Arrives s (s.succ i) fun _ j =>
      (s.token j).kind = .parenthesisClose → (s.token (s.succ j)).kind = .equalsChevronRight := by
    rcases h with hclose | hrest | ⟨hname, hparameter | hsingle⟩
    · exact (typeExpr_fails room (by simp [hclose, stops])).mono fun _ _ h => h.elim
    · exact (typeExpr_fails room (by simp [hrest, stops])).mono fun _ _ h => h.elim
    · have hstop : (s.token (s.succ (s.succ i))).kind ∈ stops :=
        List.mem_append_left [Kind.parenthesisClose, .dotDotDot] hparameter
      refine (arrives_typeExpr room hname hstop).mono fun _ j hj hclose => ?_
      rw [← hj, hclose] at hparameter
      exact absurd hparameter (by decide)
    · refine (arrives_typeExpr room hname (by simp [hsingle.1, stops])).mono fun _ j hj _ => ?_
      rw [hj]
      exact hsingle.2
  have hprimary : (primaryType (Level.backtracking room)).Arrives s i fun _ j =>
      (s.token j).kind = .equalsChevronRight := by
    unfold primaryType
    refine .behind .peek ?_
    rw [hopen]
    refine .spanned (.behind .consume (.bind hinner fun type j hj => ?_))
    exact .require_bind fun hclose => .pure fun _ => hj hclose
  refine arrives_unionType hprimary (by simp [hopen]) (by simp [hopen]) fun _ j hj => ?_
  simp [hj]

end

/-! ## The two parsers side by side -/

section

variable {I : Buffer → Prop} [hI : Buffer.IsInvariant I] {α : Type}

instance keeps_orElse (p q : Parser α) [hp : Keeps I p] [hq : Keeps I q] :
    Keeps I (orElse p q) := by
  constructor
  · intro b h
    have hb := hp.buffer h
    have hgrows := hp.grows b
    unfold orElse
    cases hr : p b with
    | ok a b' =>
      rw [hr] at hb
      exact hb
    | fail e b' =>
      rw [hr] at hb hgrows
      exact hq.buffer (hI.back h hb hgrows)
  · intro b
    have hgrows := hp.grows b
    unfold orElse
    cases hr : p b with
    | ok a b' =>
      rw [hr] at hgrows
      exact hgrows
    | fail e b' =>
      rw [hr] at hgrows
      exact hgrows.trans (hq.grows { b' with cursor := b.cursor })

end

end Parser

instance Level.keeps_backtracking {I : Buffer → Prop} [Buffer.IsInvariant I] (room : Nat) :
    (Level.backtracking room).Keeps I := by
  induction room with
  | zero => exact ⟨Parser.keeps_tooDeep, Parser.keeps_tooDeep⟩
  | succ room ih =>
    refine ⟨?_, Parser.keeps_operatorType⟩
    change Parser.Keeps I (Parser.anyTypeBacktracking _)
    unfold Parser.anyTypeBacktracking
    infer_instance

/-- The buffer has read what `c` has read and perhaps more. -/
structure Buffer.Extends (s : Scanner) (c b : Buffer) : Prop extends Buffer.Views s b where
  grows : c.seen.size ≤ b.seen.size
  limits : b.limits = c.limits

instance (s : Scanner) (c : Buffer) : Buffer.IsInvariant (Buffer.Extends s c) :=
  .of_move
    (fun {b} h => ⟨h.toViews.look, h.grows.trans b.size_seen_look, b.limits_look.trans h.limits⟩)
    fun _ h => ⟨⟨h.scanner, h.seen⟩, h.grows, h.limits⟩

/-- A failure of the first parser excuses any failure of the second one. -/
def Tolerance.anyError : Tolerance where
  allows _ x := x.isSome
  refl _ := rfl
  any h := nomatch h

namespace Parser

section

variable {s : Scanner} {n i : Nat} {inner : Level} {room : Nat} {b c : Buffer}
  [hinner : Level.Agree .anyError inner (Level.backtracking room)]

/-- The buffer of a parser that failed, set back. -/
theorem beside_of_fail {e : SyntaxError} {c' : Buffer} (h : Buffer.Beside s n i b c)
    (hfail : functionType (Level.backtracking room) c = .fail e c') :
    Buffer.Beside s n i b { c' with cursor := c.cursor } := by
  have hkeeps : Keeps (Buffer.Extends s c) (functionType (Level.backtracking room)) := inferInstance
  have hextends := hkeeps.buffer ⟨h.right.toViews, le_rfl, rfl⟩
  rw [hfail] at hextends
  rw [h.right.cursor]
  exact ⟨h.left, hextends.toViews.moved (h.right.reached.trans hextends.grows), h.manyLeft,
    h.manyRight.trans hextends.grows, h.limits.trans hextends.limits.symm⟩

/-- Where the lookahead says yes: the function type, or a failure that may go astray. -/
theorem agree_functionType (hstarts : s.StartsParameters i)
    (hopen : (s.token i).kind = .parenthesisOpen) (h : Buffer.Beside s n i b c) :
    Reply.Agree .anyError s (max n (i + 1)) (fun _ => true = true) (functionType inner b)
      (orElse (functionType (Level.backtracking room))
        (unionType (Level.backtracking room)) c) := by
  have hfunction : Looks .anyError true (functionType inner)
    (functionType (Level.backtracking room)) := inferInstance
  have hagree := hfunction.pairs b c h
  unfold orElse
  cases hrun : functionType (Level.backtracking room) c with
  | ok type c' =>
    rw [hrun] at hagree
    exact hagree
  | fail e c' =>
    rw [hrun] at hagree
    have hunion := unionType_astray room hstarts hopen _ (beside_of_fail h hrun).right
    generalize functionType inner b = x at hagree ⊢
    dsimp only
    generalize unionType (Level.backtracking room) _ = y at hunion ⊢
    cases hagree with
    | fail =>
      cases hunion with
      | ok hc harrow => exact .astray (fun _ => rfl) hc harrow rfl
      | fail => exact .fail rfl

/-- Where the lookahead says no: the same type in parentheses. -/
theorem agree_unionType (hstarts : ¬ s.StartsParameters i)
    (hopen : (s.token i).kind = .parenthesisOpen) (h : Buffer.Beside s n i b c) :
    Reply.Agree .anyError s (max n (i + 1)) (fun _ => true = true) (unionType inner b)
      (orElse (functionType (Level.backtracking room))
        (unionType (Level.backtracking room)) c) := by
  have hunion : Looks .anyError true (unionType inner) (unionType (Level.backtracking room)) :=
    inferInstance
  have hfails := functionType_fails (Level.backtracking room) hstarts hopen c h.right
  unfold orElse
  cases hrun : functionType (Level.backtracking room) c with
  | ok type c' =>
    rw [hrun] at hfails
    cases hfails with
    | ok _ h => exact h.elim
  | fail e c' => exact hunion.pairs _ _ (beside_of_fail h hrun)

omit hinner in
theorem run_anyType (hopen : (s.token i).kind = .parenthesisOpen) (hb : b.Stands s i) {v : Bool}
    (hv : Goes s i i opensFunctionType v) : ∃ b',
      anyType inner b = (if v then functionType inner else unionType inner) b' ∧
        b.Leads s i i b' := by
  obtain ⟨b', hkind, hleads⟩ := Goes.peekKind b hb
  obtain ⟨b'', hopens, hleads'⟩ := hv b' hleads.stands
  refine ⟨b'', ?_, hleads.trans hleads'⟩
  unfold anyType
  rw [bind_of_ok hkind, hopen]
  exact bind_of_ok hopens _

theorem looks_anyTypeBacktracking :
    Looks .anyError true (anyType inner) (anyTypeBacktracking (Level.backtracking room)) := by
  refine ⟨fun {s n i} b c h => ?_⟩
  obtain ⟨c', hright, hc⟩ : ∃ c', anyTypeBacktracking (Level.backtracking room) c = _ ∧ _ :=
    Goes.peekKind.run _ h.right
  rw [hright]
  by_cases hopen : (s.token i).kind = .parenthesisOpen
  · rw [if_pos (by simp [hopen])]
    by_cases hstarts : s.StartsParameters i
    · obtain ⟨b', hleft, hb⟩ := run_anyType hopen h.left (goes_opensFunctionType_true hstarts)
      rw [hleft]
      exact agree_functionType hstarts hopen (h.leads hb hc)
    · obtain ⟨b', hleft, hb⟩ := run_anyType hopen h.left (goes_opensFunctionType_false hstarts)
      rw [hleft]
      exact agree_unionType hstarts hopen (h.leads hb hc)
  · rw [if_neg (by simpa using hopen)]
    exact looks_anyType.pairs b c' (h.leads (.refl h.left) hc)

end

end Parser

instance Level.agree_backtracking (room : Nat) :
    Level.Agree .anyError (Level.ofRoom room) (Level.backtracking room) := by
  induction room with
  | zero => exact ⟨Parser.looks_tooDeep, Parser.looks_tooDeep⟩
  | succ room ih => exact ⟨Parser.looks_anyTypeBacktracking, Parser.looks_operatorType⟩

/-- Looking ahead at a parenthesis accepts the same files as backtracking and gives the same
trees. -/
theorem parse_iff_parseBacktracking (source : String) (file : File) :
    parse source = .ok file ↔ parseBacktracking source = .ok file := by
  have hstart : Buffer.Beside (Scanner.ofSource source) 0 0 (Buffer.ofSource source)
      (Buffer.ofSource source) :=
    have hstands := (Buffer.tracks_ofSource source).toStands
    ⟨hstands, hstands, Nat.zero_le _, Nat.zero_le _, rfl⟩
  have hfile : Parser.Looks .anyError false (Parser.file Level.ofRoom maxNesting)
    (Parser.file Level.backtracking maxNesting) := Parser.looks_file maxNesting
  have hagree := hfile.pairs _ _ hstart
  unfold parse parseWithin parseBacktracking
  generalize Parser.file Level.ofRoom maxNesting (Buffer.ofSource source) = x at hagree ⊢
  generalize Parser.file Level.backtracking maxNesting (Buffer.ofSource source) = y at hagree ⊢
  cases hagree with
  | ok => exact Iff.rfl
  | @fail e b y hfails =>
    cases y with
    | ok => cases hfails
    | fail e' c => simp
  | astray _ _ _ h => exact absurd h Bool.false_ne_true

end Ambient
