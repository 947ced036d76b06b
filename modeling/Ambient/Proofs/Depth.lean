import Ambient.Proofs.Nodes
/-!
# How deep types and blocks are nested

What stands inside a type or a block is read with room for one level less, so the parsers give trees
in which one can go inside only so often (`Node.Shallow`): three times for each level, for a union,
an intersection in it and a type that encloses others in that. Suffixes and dots are read in loops
that need no room.
-/

namespace Ambient

namespace Node

/-- From the node one can go inside fewer than `n` times. -/
inductive Shallow : Nat → Node → Prop
  | intro {n : Nat} {node : Node} : (∀ part ∈ node.before, Shallow (n + 1) part) →
    (∀ part ∈ node.inside, Shallow n part) → Shallow (n + 1) node

namespace Shallow

variable {n m : Nat} {node : Node}

theorem mono (h : Shallow n node) (hle : n ≤ m) : Shallow m node := by
  induction h generalizing m with
  | @intro n node _ _ ihbefore ihinside =>
    obtain ⟨m, rfl⟩ : ∃ k, m = k + 1 := ⟨m - 1, by omega⟩
    exact .intro (fun part hpart => ihbefore part hpart hle)
      fun part hpart => ihinside part hpart (by omega)

/-- What a run does to the number of steps that are left. -/
theorem reaches (h : Shallow n node) {inwards back : Nat} {part : Node}
    (hreaches : node.Reaches inwards back part) : ∃ k, n = inwards + k ∧ Shallow k part := by
  induction hreaches with
  | refl => exact ⟨n, by omega, h⟩
  | inside _ hpart ih =>
    obtain ⟨k, rfl, hk⟩ := ih
    cases hk with
    | @intro k _ _ hinside => exact ⟨k, by omega, hinside _ hpart⟩
  | before _ hpart ih =>
    obtain ⟨k, rfl, hk⟩ := ih
    cases hk with
    | intro hbefore _ => exact ⟨_, rfl, hbefore _ hpart⟩

theorem inwards_lt (h : Shallow n node) {inwards back : Nat} {part : Node}
    (hreaches : node.Reaches inwards back part) : inwards < n := by
  obtain ⟨k, rfl, hk⟩ := h.reaches hreaches
  cases hk
  omega

theorem of_inside (hbefore : node.before = []) (h : ∀ part ∈ node.inside, Shallow n part) :
    Shallow (n + 1) node := .intro (by simp [hbefore]) h

theorem leaf (hbefore : node.before = []) (hinside : node.inside = []) : Shallow (n + 1) node :=
  of_inside hbefore (by simp [hinside])

theorem types {ts : List TypeExpr} (h : ∀ t ∈ ts, Shallow n (.type t)) :
    ∀ part ∈ ts.map Node.type, Shallow n part := List.forall_mem_map.2 h

theorem name (hn : 1 ≤ n) (path : EntityName) : Shallow n (.name path) := by
  obtain ⟨n, rfl⟩ : ∃ k, n = k + 1 := ⟨n - 1, by omega⟩
  induction path with
  | identifier word => exact .leaf rfl rfl
  | qualified left word ih => exact .intro (List.forall_mem_singleton.2 ih) (by simp [inside])

/-- A type marked as read only has the parts that it has without the mark. -/
theorem readonly {start : Nat} {operand type : TypeExpr} (h : Shallow n (.type operand))
    (htype : Parser.readonlyFrom? start operand = some type) : Shallow n (.type type) := by
  unfold Parser.readonlyFrom? at htype
  split at htype
  · obtain rfl := Option.some.inj htype
    cases h with
    | intro hbefore hinside => exact .intro hbefore hinside
  · obtain rfl := Option.some.inj htype
    cases h with
    | intro hbefore hinside => exact .intro hbefore hinside
  · cases htype

end Shallow

end Node

/-! ## What the parsers of types give -/

/-- The parsers of the level give types that are shallow. -/
structure Level.Shallow (I : Buffer → Prop) (n : Nat) (level : Level) : Prop where
  typeExpr : Parser.Gives I level.typeExpr fun t => Node.Shallow n (.type t)
  operand : Parser.Gives I level.operand fun t => Node.Shallow n (.type t)

namespace Parser

section

variable {I : Buffer → Prop} [Buffer.IsInvariant I] {inner : Level} [inner.Keeps I] {n : Nat}
  (h : inner.Shallow I n)

include h

theorem shallow_typeReference (hn : 1 ≤ n) :
    Gives I (typeReference inner) fun t => Node.Shallow (n + 1) (.type t) := by
  unfold typeReference
  refine .spanned (.behind fun path => ?_)
  refine (Gives.after (Gives.commaList h.typeExpr)).bind fun arguments harguments => ?_
  refine .pure fun span => .of_inside rfl ?_
  rw [Node.inside, List.forall_mem_cons]
  exact ⟨.name hn path, .types (forall_mem_getD harguments)⟩

theorem shallow_primaryType (hn : 1 ≤ n) :
    Gives I (primaryType inner) fun t => Node.Shallow (n + 1) (.type t) := by
  unfold primaryType
  refine .behind fun t => ?_
  split
  · refine .spanned ((types_typeMembers h.typeExpr).bind fun members hmembers => ?_)
    exact .pure fun span => .of_inside rfl (.types hmembers)
  · refine .spanned (.behind fun _ => ?_)
    refine (Gives.commaList h.typeExpr).bind fun elements helements => ?_
    exact .pure fun span => .of_inside rfl (.types helements)
  · refine .spanned (.behind fun _ => h.typeExpr.bind fun type htype => .behind fun _ => ?_)
    exact .pure fun span => .of_inside rfl (List.forall_mem_singleton.2 htype)
  · exact .spanned (.behind fun _ => .pure fun span => .leaf rfl rfl)
  · exact .spanned (.behind fun _ => .pure fun span => .leaf rfl rfl)
  · exact .spanned (.behind fun _ => .pure fun span => .leaf rfl rfl)
  · exact .spanned (.behind fun _ => .pure fun span => .leaf rfl rfl)
  · exact .spanned (.behind fun _ => .pure fun span => .leaf rfl rfl)
  · exact .spanned (.behind fun _ => .pure fun span => .leaf rfl rfl)
  · refine .spanned (.behind fun _ => .behind fun path => .pure fun span => ?_)
    exact .of_inside rfl (List.forall_mem_singleton.2 (.name hn path))
  · exact .ite (shallow_typeReference h hn) .failWith

/-- A suffix leaves what it stands behind as shallow as it was. -/
theorem shallow_suffixedType (hn : 1 ≤ n) :
    Gives I (suffixedType inner) fun t => Node.Shallow (n + 1) (.type t) := by
  have hkeeps : ∀ start type, Keeps I (suffixStep inner start type) := by
    intro start type
    unfold suffixStep
    refine Keeps.bind inferInstance fun t => ?_
    infer_instance
  rw [suffixedType_eq]
  refine .behind fun start => (shallow_primaryType h hn).bind fun first hfirst => ?_
  refine .repeatFrom (fun type htype => ?_) hfirst
  have hbefore : ∀ part ∈ [Node.type type], Node.Shallow (n + 1) part :=
    List.forall_mem_singleton.2 htype
  unfold suffixStep
  refine .behind fun t => .ite (.pure htype) (.behind fun _ => .behind fun _ => .ite ?_ ?_)
  · exact .behind fun span => .pure (.intro hbefore (by simp [Node.inside]))
  · refine h.typeExpr.bind fun index hindex => .behind fun _ => .behind fun span => ?_
    exact .pure (.intro hbefore (List.forall_mem_singleton.2 hindex))

theorem shallow_operatorType (hn : 1 ≤ n) :
    Gives I (operatorType inner) fun t => Node.Shallow (n + 1) (.type t) := by
  unfold operatorType
  refine .behind fun kind => ?_
  split
  · refine .spanned (.behind fun _ => h.operand.bind fun operand hoperand => ?_)
    exact .pure fun span => .of_inside rfl (List.forall_mem_singleton.2 hoperand)
  · refine .behind fun t => h.operand.bind fun operand hoperand => ?_
    split
    · rename_i type hreadonly
      exact .pure ((hoperand.readonly hreadonly).mono (Nat.le_succ n))
    · exact .failWith
  · exact shallow_suffixedType h hn

omit h in
theorem shallow_joined {arm : Parser TypeExpr} [Keeps I arm] {sign : Kind}
    {make : Span → List TypeExpr → TypeExpr}
    (harm : Gives I arm fun t => Node.Shallow n (.type t))
    (hmake : ∀ span arms, (Node.type (make span arms)).before = [] ∧
      (Node.type (make span arms)).inside = arms.map .type) :
    Gives I (joined sign make arm) fun t => Node.Shallow (n + 1) (.type t) := by
  unfold joined
  refine .behind fun start => .behind fun _ => harm.bind fun first hfirst => .behind fun kind => ?_
  refine .ite (.pure (hfirst.mono (Nat.le_succ n))) ?_
  refine (Gives.collect harm.after).bind fun others hothers => .behind fun span => .pure ?_
  obtain ⟨hbefore, hinside⟩ := hmake span (first :: others)
  refine .of_inside hbefore ?_
  rw [hinside]
  exact .types (List.forall_mem_cons.2 ⟨hfirst, hothers⟩)

theorem shallow_unionType (hn : 1 ≤ n) :
    Gives I (unionType inner) fun t => Node.Shallow (n + 3) (.type t) := by
  unfold unionType intersectionType
  refine shallow_joined (shallow_joined (shallow_operatorType h hn) ?_) ?_
  · exact fun _ _ => ⟨rfl, rfl⟩
  · exact fun _ _ => ⟨rfl, rfl⟩

theorem shallow_functionType :
    Gives I (functionType inner) fun t => Node.Shallow (n + 1) (.type t) := by
  unfold functionType
  refine .spanned (.signature h.typeExpr fun tps ps hps => .behind fun _ => ?_)
  refine h.typeExpr.bind fun result hresult => .pure fun span => .of_inside rfl ?_
  exact .types (List.forall_mem_append.2 ⟨hps, by simpa using hresult⟩)

theorem shallow_constructorType :
    Gives I (constructorType inner) fun t => Node.Shallow (n + 1) (.type t) := by
  unfold constructorType
  refine .spanned (.behind fun _ => .signature h.typeExpr fun tps ps hps => .behind fun _ => ?_)
  refine h.typeExpr.bind fun result hresult => .pure fun span => .of_inside rfl ?_
  exact .types (List.forall_mem_append.2 ⟨hps, by simpa using hresult⟩)

theorem shallow_anyType (hn : 1 ≤ n) :
    Gives I (anyType inner) fun t => Node.Shallow (n + 3) (.type t) := by
  have hfunction := (shallow_functionType h).mono fun t ht => ht.mono (m := n + 3) (by omega)
  have hconstructor := (shallow_constructorType h).mono fun t ht => ht.mono (m := n + 3) (by omega)
  have hunion := shallow_unionType h hn
  unfold anyType
  refine .behind fun kind => ?_
  split
  · exact hfunction
  · exact hconstructor
  · exact .behind fun next => .ite (.behind fun _ => hconstructor) hunion
  · exact .behind fun _ => .ite hfunction hunion
  · exact hunion

end

end Parser

/-- With room for a level more, types may be nested three deeper: a union, an intersection in it,
and what encloses types of the level in that. -/
theorem Level.shallow_ofRoom {I : Buffer → Prop} [Buffer.IsInvariant I] (room : Nat) :
    (Level.ofRoom room).Shallow I (3 * room + 1) := by
  induction room with
  | zero => exact ⟨.behind fun _ => .failWith, .behind fun _ => .failWith⟩
  | succ room ih =>
    refine ⟨Parser.shallow_anyType ih (by omega), ?_⟩
    exact (Parser.shallow_operatorType ih (by omega)).mono fun t ht => ht.mono (by omega)

/-! ## What the parsers of statements give -/

theorem Node.shallow_block {n : Nat} {statements : List Statement}
    (h : ∀ s ∈ statements, ∀ part ∈ s.declaration.inside, Node.Shallow n part) :
    Node.Shallow (n + 1) (.block statements) := by
  refine .of_inside rfl fun part hpart => ?_
  obtain ⟨s, hs, hpart⟩ := List.mem_flatMap.1 hpart
  exact h s hs part hpart

namespace Parser

section

variable {I : Buffer → Prop} [Buffer.IsInvariant I] {n : Nat}

/-- The types that an interface or a class is based on are nested one deeper than the others. -/
theorem givesDeclarations_shallow {types : Level} [types.Keeps I] (htypes : types.Shallow I n)
    {body : Parser (List Statement)} [Keeps I body]
    (hbody : Gives I body fun ss => Node.Shallow (n + 1) (.block ss)) (hn : 1 ≤ n) :
    GivesDeclarations I types body fun d => ∀ part ∈ d.inside, Node.Shallow (n + 1) part :=
  givesDeclarations_inside (htypes.typeExpr.mono fun _ ht => ht.mono (Nat.le_succ n))
    (shallow_typeReference htypes hn) hbody

theorem shallow_blockBody (room : Nat) : Gives I (blockBody Level.ofRoom room)
    fun ss => Node.Shallow (3 * room + 2) (.block ss) := by
  induction room with
  | zero => exact .behind fun _ => .failWith
  | succ room ih =>
    have hdeclarations := givesDeclarations_shallow (Level.shallow_ofRoom room) ih (by omega)
    refine (hdeclarations.statements _).mono fun ss hss => ?_
    exact (Node.shallow_block hss).mono (by omega)

theorem shallow_file (room : Nat) : Gives I (file Level.ofRoom room)
    fun file => Node.Shallow (3 * room + 3) (.block file.body) := by
  have hdeclarations := givesDeclarations_shallow (I := I) (Level.shallow_ofRoom room)
    (shallow_blockBody room) (by omega)
  unfold file
  refine (hdeclarations.statements _).bind fun ss hss => .behind fun _ => .behind fun span => ?_
  exact .pure (Node.shallow_block hss)

end

end Parser

end Ambient
