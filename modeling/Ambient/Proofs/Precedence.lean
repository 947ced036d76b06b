import Ambient.Proofs.NestingLimit
/-!
# Types are grouped by precedence

Function types bind loosest, then unions, intersections, the operators `keyof` and `readonly`, and
tightest suffixes (`TypeExpr.rank`). In a type that is parsed, what stands next to a sign binds
tighter than the sign (`TypeExpr.IsGrouped`); anything looser is there in parentheses, which the
tree keeps. This holds at every type of a file (`isGrouped_of_parse`).

A union or an intersection with a single arm is never made. That it has a second arm is known from
the sign that was looked at before, so it matters here that looking at a token twice shows the same
token: the cursor is never further than the tokens that were seen (`Buffer.InReach`).
-/

namespace Ambient

/-- The types that stand next to the signs of this one bind tightly enough for that, and a sign that
joins types joins at least two. Behind `keyof` another operator may follow. -/
def TypeExpr.IsGrouped : TypeExpr → Prop
  | .union _ arms => 2 ≤ arms.length ∧ ∀ a ∈ arms, 1 < a.rank
  | .intersection _ arms => 2 ≤ arms.length ∧ ∀ a ∈ arms, 2 < a.rank
  | .keyOf _ operand => 2 < operand.rank
  | .array _ _ element => 3 < element.rank
  | .indexedAccess _ indexed _ => 3 < indexed.rank
  | _ => True

namespace Node

/-- All types in the node are grouped, and the node itself if it is one. -/
inductive Grouped : Node → Prop
  | intro {node : Node} :
    (∀ t, node = .type t → t.IsGrouped) →
    (∀ part ∈ node.before, Grouped part) →
    (∀ part ∈ node.inside, Grouped part) → Grouped node

namespace Grouped

theorem reaches {node part : Node} (h : Grouped node) {inwards back : Nat}
    (hreaches : node.Reaches inwards back part) : Grouped part := by
  induction hreaches with
  | refl => exact h
  | inside _ hpart ih =>
    cases ih with
    | intro _ _ hinside => exact hinside _ hpart
  | before _ hpart ih =>
    cases ih with
    | intro _ hbefore _ => exact hbefore _ hpart

theorem isGrouped {t : TypeExpr} (h : Grouped (.type t)) : t.IsGrouped := by
  cases h with
  | intro ht _ _ => exact ht t rfl

theorem name (path : EntityName) : Grouped (.name path) := by
  induction path with
  | identifier word => exact .intro (by simp) (by simp [before]) (by simp [inside])
  | qualified left word ih => exact .intro (by simp) (by simpa [before] using ih) (by simp [inside])

theorem type {t : TypeExpr} (ht : t.IsGrouped)
    (hbefore : ∀ part ∈ (Node.type t).before, Grouped part)
    (hinside : ∀ part ∈ (Node.type t).inside, Grouped part) : Grouped (.type t) := by
  refine .intro ?_ hbefore hinside
  rintro _ ⟨⟩
  exact ht

theorem block {statements : List Statement}
    (h : ∀ s ∈ statements, ∀ part ∈ s.declaration.inside, Grouped part) :
    Grouped (.block statements) := by
  refine .intro (by simp) (by simp [before]) fun part hpart => ?_
  obtain ⟨s, hs, hpart⟩ := List.mem_flatMap.1 hpart
  exact h s hs part hpart

end Grouped

end Node

/-! ## Looking twice -/

/-- The cursor is on a token that has been seen, or behind the last of them. -/
def Buffer.InReach (b : Buffer) : Prop := b.cursor ≤ b.seen.size

namespace Buffer.InReach

variable {b : Buffer}

theorem look (h : b.InReach) :
    b.look.2.look.1 = b.look.1 ∧ b.look.2.cursor < b.look.2.seen.size := by
  unfold InReach at h
  by_cases hlt : b.cursor < b.seen.size
  · simp [Buffer.look, hlt]
  · have hcursor : b.cursor = b.seen.size := by omega
    simp [Buffer.look, hcursor]

theorem consume (h : b.InReach) : b.consume.2.InReach := by
  have hlt := h.look.2
  change (b.look.2.pass b.look.1).InReach
  unfold Buffer.pass
  split
  · exact Nat.le_of_lt hlt
  · exact hlt

end Buffer.InReach

instance : Buffer.IsInvariant Buffer.InReach where
  look h := Nat.le_of_lt h.look.2
  consume h := h.consume
  back h _ hle := Nat.le_trans h hle

namespace Parser

section

variable {α β : Type}

variable {I : Buffer → Prop}

theorem after_ne_none {kind : Kind} {p : Parser α} {b b' : Buffer} (h : b.look.1.kind = kind) :
    after kind p b ≠ .ok none b' := by
  intro hrun
  have haccept : accept kind b = .ok true b.look.2.consume.2 := by
    change andThen (tryKind kind) _ b = _
    unfold tryKind
    change andThen (andThen peek _) _ b = _
    simp only [andThen, peek, ofBuffer]
    rw [if_pos (by simpa using h)]
    rfl
  unfold after at hrun
  rw [bind_of_ok haccept, if_pos rfl] at hrun
  obtain ⟨a, b₁, -, hsome⟩ := exists_of_bind_eq_ok hrun
  cases hsome

theorem collect_ne_nil {item : Parser (Option α)} [hitem : Keeps I item] {b b' : Buffer}
    (hb : I b) (hnone : ∀ b₁, item b ≠ .ok none b₁) {as : List α}
    (h : collect item b = .ok as b') : as ≠ [] := by
  have hmore : ∀ rounds a, Gives I (repeatAtMost (collectStep item) rounds [a]) (· ≠ []) := by
    intro rounds a
    refine .repeatAtMost (P := (· ≠ [])) (fun items hitems => ?_) rounds (by simp)
    refine .behind fun r => ?_
    cases r with
    | none => exact .pure hitems
    | some a => exact .pure (by simp)
  have hloop : ∀ items b₁, repeatFrom [] (collectStep item) b = .ok items b₁ → items ≠ [] := by
    intro items b₁ hrun
    unfold repeatFrom at hrun
    cases hrounds : b.rounds with
    | zero =>
      rw [hrounds] at hrun
      cases hrun
    | succ rounds =>
      rw [hrounds] at hrun
      change andThen (andThen item _) _ b = _ at hrun
      have hkeeps := hitem.buffer hb
      cases hr : item b with
      | fail e b₂ =>
        simp only [andThen, hr] at hrun
        cases hrun
      | ok r b₂ =>
        rw [hr] at hkeeps
        cases r with
        | none => exact absurd hr (hnone b₂)
        | some a =>
          simp only [andThen, hr] at hrun
          exact (hmore rounds a).value hkeeps hrun
  rw [collect_eq] at h
  obtain ⟨items, b₁, hrun, hitems⟩ := exists_of_bind_eq_ok h
  cases hitems
  simpa using hloop items _ hrun

/-- What is collected behind a sign that was looked at is not empty. -/
theorem gives_collect_or {sign : Kind} {p : Parser α} {q : Parser β} {f : List α → Parser β}
    {P : α → Prop} {Q : β → Prop} [Keeps Buffer.InReach p] (hp : Gives Buffer.InReach p P)
    (hq : Gives Buffer.InReach q Q)
    (hf : ∀ as, as ≠ [] → (∀ a ∈ as, P a) → Gives Buffer.InReach (f as) Q) :
    Gives Buffer.InReach (do
      if (← peekKind) != sign then q
      else
        let as ← collect (after sign p)
        f as) Q := by
  constructor
  intro b b' c hb h
  have hb₁ : b.look.2.InReach := Buffer.IsInvariant.look hb
  change (if b.look.1.kind != sign then q else collect (after sign p) >>= f) b.look.2 = _ at h
  by_cases hkind : b.look.1.kind = sign
  · rw [if_neg (by simpa using hkind)] at h
    obtain ⟨as, b₂, hrun, hrest⟩ := exists_of_bind_eq_ok h
    have hne : as ≠ [] := by
      refine collect_ne_nil hb₁ (fun b₃ => after_ne_none ?_) hrun
      rw [hb.look.1, hkind]
    have hall := (Gives.collect hp.after).value hb₁ hrun
    have hkeeps : Keeps Buffer.InReach (collect (after sign p)) := inferInstance
    have hb₂ := hkeeps.buffer hb₁
    rw [hrun] at hb₂
    exact (hf as hne hall).value hb₂ hrest
  · rw [if_pos (by simpa using hkind)] at h
    exact hq.value hb₁ h

end

end Parser

/-! ## What the parsers of types give -/

/-- The parsers of the level give types that are grouped, and operands that bind tighter than an
intersection. -/
structure Level.Groups (level : Level) : Prop where
  typeExpr : Parser.Gives Buffer.InReach level.typeExpr fun t => Node.Grouped (.type t)
  operand : Parser.Gives Buffer.InReach level.operand fun t =>
    Node.Grouped (.type t) ∧ 2 < t.rank

namespace Parser

open Node (Grouped)

section

variable {inner : Level} [inner.Keeps Buffer.InReach] (h : inner.Groups)

include h

theorem grouped_typeReference : Gives Buffer.InReach (typeReference inner) fun t =>
    Grouped (.type t) ∧ 3 < t.rank := by
  unfold typeReference
  refine .spanned (.behind fun path => ?_)
  refine (Gives.after (Gives.commaList h.typeExpr)).bind fun arguments harguments => ?_
  refine .pure fun span => ⟨.type trivial (by simp [Node.before]) ?_, Nat.lt_succ_self 3⟩
  rw [Node.inside, List.forall_mem_cons]
  exact ⟨.name path, List.forall_mem_map.2 (forall_mem_getD harguments)⟩

theorem grouped_primaryType : Gives Buffer.InReach (primaryType inner) fun t =>
    Grouped (.type t) ∧ 3 < t.rank := by
  have hleaf : ∀ t : TypeExpr, t.IsGrouped → (Node.type t).before = [] →
      (Node.type t).inside = [] → t.rank = 4 → Grouped (.type t) ∧ 3 < t.rank := by
    intro t ht hbefore hinside hrank
    exact ⟨.type ht (by simp [hbefore]) (by simp [hinside]), by omega⟩
  unfold primaryType
  refine .behind fun t => ?_
  split
  · refine .spanned ((types_typeMembers h.typeExpr).bind fun members hmembers => ?_)
    refine .pure fun span => ⟨.type trivial (by simp [Node.before]) ?_, Nat.lt_succ_self 3⟩
    exact List.forall_mem_map.2 hmembers
  · refine .spanned (.behind fun _ => ?_)
    refine (Gives.commaList h.typeExpr).bind fun elements helements => ?_
    refine .pure fun span => ⟨.type trivial (by simp [Node.before]) ?_, Nat.lt_succ_self 3⟩
    exact List.forall_mem_map.2 helements
  · refine .spanned (.behind fun _ => h.typeExpr.bind fun type htype => .behind fun _ => ?_)
    refine .pure fun span => ⟨.type trivial (by simp [Node.before]) ?_, Nat.lt_succ_self 3⟩
    exact List.forall_mem_singleton.2 htype
  · exact .spanned (.behind fun _ => .pure fun span => hleaf _ trivial rfl rfl rfl)
  · exact .spanned (.behind fun _ => .pure fun span => hleaf _ trivial rfl rfl rfl)
  · exact .spanned (.behind fun _ => .pure fun span => hleaf _ trivial rfl rfl rfl)
  · exact .spanned (.behind fun _ => .pure fun span => hleaf _ trivial rfl rfl rfl)
  · exact .spanned (.behind fun _ => .pure fun span => hleaf _ trivial rfl rfl rfl)
  · exact .spanned (.behind fun _ => .pure fun span => hleaf _ trivial rfl rfl rfl)
  · refine .spanned (.behind fun _ => .behind fun path => .pure fun span => ?_)
    refine ⟨.type trivial (by simp [Node.before]) ?_, Nat.lt_succ_self 3⟩
    exact List.forall_mem_singleton.2 (.name path)
  · exact .ite (grouped_typeReference h) .failWith

/-- A suffix binds as tightly as what it may stand behind. -/
theorem grouped_suffixedType : Gives Buffer.InReach (suffixedType inner) fun t =>
    Grouped (.type t) ∧ 3 < t.rank := by
  have hkeeps : ∀ start type, Keeps Buffer.InReach (suffixStep inner start type) := by
    intro start type
    unfold suffixStep
    refine Keeps.bind inferInstance fun t => ?_
    infer_instance
  rw [suffixedType_eq]
  refine .behind fun start => (grouped_primaryType h).bind fun first hfirst => ?_
  refine .repeatFrom (fun type htype => ?_) hfirst
  have hbefore : ∀ part ∈ [Node.type type], Grouped part := List.forall_mem_singleton.2 htype.1
  unfold suffixStep
  refine .behind fun t => .ite (.pure htype) (.behind fun _ => .behind fun _ => .ite ?_ ?_)
  · refine .behind fun span => .pure ⟨.type htype.2 hbefore ?_, Nat.lt_succ_self 3⟩
    simp [Node.inside]
  · refine h.typeExpr.bind fun index hindex => .behind fun _ => .behind fun span => .pure ?_
    refine ⟨.type htype.2 hbefore ?_, Nat.lt_succ_self 3⟩
    exact List.forall_mem_singleton.2 hindex

omit h in
/-- A type that is marked as read only has the parts that it has without the mark. -/
theorem grouped_readonly {start : Nat} {operand type : TypeExpr} (h : Grouped (.type operand))
    (htype : readonlyFrom? start operand = some type) :
    Grouped (.type type) ∧ 2 < type.rank := by
  have hoperand := h.isGrouped
  unfold readonlyFrom? at htype
  split at htype
  · obtain rfl := Option.some.inj htype
    refine ⟨?_, Nat.lt_succ_self 2⟩
    cases h with
    | intro _ hbefore hinside => exact .type hoperand hbefore hinside
  · obtain rfl := Option.some.inj htype
    refine ⟨?_, Nat.lt_succ_self 2⟩
    cases h with
    | intro _ hbefore hinside => exact .type hoperand hbefore hinside
  · cases htype

theorem grouped_operatorType : Gives Buffer.InReach (operatorType inner) fun t =>
    Grouped (.type t) ∧ 2 < t.rank := by
  unfold operatorType
  refine .behind fun kind => ?_
  split
  · refine .spanned (.behind fun _ => h.operand.bind fun operand hoperand => ?_)
    refine .pure fun span => ⟨.type hoperand.2 (by simp [Node.before]) ?_, ?_⟩
    · exact List.forall_mem_singleton.2 hoperand.1
    · exact Nat.lt_succ_self 2
  · refine .behind fun t => h.operand.bind fun operand hoperand => ?_
    split
    · rename_i type hreadonly
      exact .pure (grouped_readonly hoperand.1 hreadonly)
    · exact .failWith
  · exact (grouped_suffixedType h).mono fun t ht => ⟨ht.1, Nat.lt_of_succ_lt ht.2⟩

omit h in
/-- Types that are joined bind tighter than the sign, and a single one is left as it is. -/
theorem grouped_joined {arm : Parser TypeExpr} [Keeps Buffer.InReach arm] {sign : Kind}
    {make : Span → List TypeExpr → TypeExpr} {rank : Nat}
    (harm : Gives Buffer.InReach arm fun t => Grouped (.type t) ∧ rank < t.rank)
    (hrank : ∀ span arms, (make span arms).rank = rank)
    (hmake : ∀ span arms, 2 ≤ arms.length → (∀ a ∈ arms, rank < a.rank) →
      (make span arms).IsGrouped)
    (hparts : ∀ span arms, (Node.type (make span arms)).before = [] ∧
      (Node.type (make span arms)).inside = arms.map .type) :
    Gives Buffer.InReach (joined sign make arm) fun t => Grouped (.type t) ∧ rank ≤ t.rank := by
  unfold joined
  refine .behind fun start => .behind fun _ => harm.bind fun first hfirst => ?_
  refine gives_collect_or harm ?_ fun others hne hothers => ?_
  · exact .pure ⟨hfirst.1, Nat.le_of_lt hfirst.2⟩
  · refine .behind fun span => .pure ?_
    have harms : ∀ a ∈ first :: others, Grouped (.type a) ∧ rank < a.rank :=
      List.forall_mem_cons.2 ⟨hfirst, hothers⟩
    have hlength : 2 ≤ (first :: others).length := by
      have := List.length_pos_iff.2 hne
      simp only [List.length_cons]
      omega
    obtain ⟨hbefore, hinside⟩ := hparts span (first :: others)
    constructor
    · refine .type (hmake span _ hlength fun a ha => (harms a ha).2) (by simp [hbefore]) ?_
      rw [hinside]
      exact List.forall_mem_map.2 fun a ha => (harms a ha).1
    · exact Nat.le_of_eq (hrank span _).symm

theorem grouped_unionType : Gives Buffer.InReach (unionType inner) fun t => Grouped (.type t) := by
  have hintersection : Gives Buffer.InReach (intersectionType inner) fun t =>
      Grouped (.type t) ∧ 2 ≤ t.rank :=
    grouped_joined (grouped_operatorType h) (fun _ _ => rfl)
      (fun _ _ hlength harms => ⟨hlength, harms⟩) fun _ _ => ⟨rfl, rfl⟩
  have hkeeps : Keeps Buffer.InReach (intersectionType inner) := by
    unfold intersectionType
    infer_instance
  have hunion : Gives Buffer.InReach (unionType inner) fun t => Grouped (.type t) ∧ 1 ≤ t.rank :=
    grouped_joined hintersection (fun _ _ => rfl)
      (fun _ _ hlength harms => ⟨hlength, harms⟩) fun _ _ => ⟨rfl, rfl⟩
  exact hunion.mono fun t ht => ht.1

theorem grouped_functionType :
    Gives Buffer.InReach (functionType inner) fun t => Grouped (.type t) := by
  unfold functionType
  refine .spanned (.signature h.typeExpr fun tps ps hps => .behind fun _ => ?_)
  refine h.typeExpr.bind fun result hresult => .pure fun span => ?_
  refine .type trivial (by simp [Node.before]) (List.forall_mem_map.2 ?_)
  exact List.forall_mem_append.2 ⟨hps, by simpa using hresult⟩

theorem grouped_constructorType :
    Gives Buffer.InReach (constructorType inner) fun t => Grouped (.type t) := by
  unfold constructorType
  refine .spanned (.behind fun _ => .signature h.typeExpr fun tps ps hps => .behind fun _ => ?_)
  refine h.typeExpr.bind fun result hresult => .pure fun span => ?_
  refine .type trivial (by simp [Node.before]) (List.forall_mem_map.2 ?_)
  exact List.forall_mem_append.2 ⟨hps, by simpa using hresult⟩

theorem grouped_anyType : Gives Buffer.InReach (anyType inner) fun t => Grouped (.type t) := by
  unfold anyType
  refine .behind fun kind => ?_
  split
  · exact grouped_functionType h
  · exact grouped_constructorType h
  · exact .behind fun next =>
      .ite (.behind fun _ => grouped_constructorType h) (grouped_unionType h)
  · exact .behind fun _ => .ite (grouped_functionType h) (grouped_unionType h)
  · exact grouped_unionType h

end

end Parser

theorem Level.groups_ofRoom (room : Nat) : (Level.ofRoom room).Groups := by
  induction room with
  | zero => exact ⟨.behind fun _ => .failWith, .behind fun _ => .failWith⟩
  | succ room ih => exact ⟨Parser.grouped_anyType ih, Parser.grouped_operatorType ih⟩

/-! ## Files -/

namespace Parser

open Node (Grouped)

theorem givesDeclarations_grouped {types : Level} [types.Keeps Buffer.InReach]
    (htypes : types.Groups) {body : Parser (List Statement)} [Keeps Buffer.InReach body]
    (hbody : Gives Buffer.InReach body fun ss => Grouped (.block ss)) :
    GivesDeclarations Buffer.InReach types body fun d => ∀ part ∈ d.inside, Grouped part :=
  givesDeclarations_inside htypes.typeExpr ((grouped_typeReference htypes).mono fun _ ht => ht.1)
    hbody

theorem grouped_blockBody (room : Nat) :
    Gives Buffer.InReach (blockBody Level.ofRoom room) fun ss => Grouped (.block ss) := by
  induction room with
  | zero => exact .behind fun _ => .failWith
  | succ room ih =>
    have hdeclarations := givesDeclarations_grouped (Level.groups_ofRoom room) ih
    exact (hdeclarations.statements _).mono fun ss hss => .block hss

theorem grouped_file (room : Nat) :
    Gives Buffer.InReach (file Level.ofRoom room) fun file => Grouped (.block file.body) := by
  have hdeclarations :=
    givesDeclarations_grouped (Level.groups_ofRoom room) (grouped_blockBody room)
  unfold file
  refine (hdeclarations.statements _).bind fun ss hss => .behind fun _ => .behind fun span => ?_
  exact .pure (.block hss)

end Parser

/-- Every type of a file that is parsed is grouped by precedence. -/
theorem isGrouped_of_parse {source : String} {file : File} (h : parse source = .ok file)
    {inwards back : Nat} {t : TypeExpr}
    (ht : (Node.block file.body).Reaches inwards back (.type t)) : t.IsGrouped := by
  unfold parse parseWithin at h
  split at h
  · rename_i hparse
    obtain rfl := Except.ok.inj h
    have hstart : (Buffer.ofSource source).InReach := Nat.zero_le _
    have hfile := (Parser.grouped_file maxNesting).value hstart hparse
    exact (hfile.reaches ht).isGrouped
  · cases h

/-- A type with every sign in it, one inside the other. -/
def manySigns : TypeExpr :=
  let named (name : String) : TypeExpr := .reference .nowhere (.identifier name) none
  .union .nowhere [
    .intersection .nowhere [
      .array .nowhere false (.parenthesized .nowhere (.union .nowhere [named "b", named "c"])),
      .keyOf .nowhere (.array .nowhere true (named "d"))],
    named "e"]

theorem isGrouped_of_parse_manySigns :
    aliasSource manySigns = "type a = ( b | c ) [ ] & keyof readonly d [ ] | e" ∧
    ∃ file t, parse (aliasSource manySigns) = .ok file ∧
      (Node.block file.body).Reaches 1 0 (.type t) ∧ t.erase = manySigns.erase ∧ t.IsGrouped := by
  have hadmissible : manySigns.isAdmissible 10 maxNesting := by decide +kernel
  obtain ⟨file, s, d, hfile, hbody, hd, herase⟩ :=
    parseWithin_aliasSource (TypeExpr.admissible_of_isAdmissible hadmissible)
  have hreaches := reaches_of_alias hbody hd .refl
  exact ⟨by decide +kernel, file, d.body, hfile, hreaches, herase,
    isGrouped_of_parse hfile hreaches⟩

end Ambient
