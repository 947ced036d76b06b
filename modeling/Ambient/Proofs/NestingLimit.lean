import Ambient.Proofs.Depth
import Ambient.Proofs.FacingStatements
import Ambient.Proofs.Room
/-!
# How far files can be nested

What the room for nesting limits is how often one can go inside (`nesting_limited`): in a file that
is parsed at most 302 times, and a file in which that would be more often is refused because it is
nested too deeply. How many types enclose one another is not limited (`nesting_unlimited`), since
there may be any number of suffixes behind a type.
-/

namespace Ambient

/-! ## Files that declare one type -/

namespace Parser

/-- The words of a file that declares the type `a`. -/
def aliasWords (t : TypeExpr) : List Word :=
  Kind.kwType.word :: Word.ofName "a" :: Kind.equals.word :: t.words

/-- The declaration names the type, up to spans. -/
def Aliases (t : TypeExpr) (d : Declaration) : Prop :=
  ∃ x, d = .ofTypeAlias x ∧ x.body.erase = t.erase

theorem leaves_typeAliasDeclaration {types : Level} {t : TypeExpr} (h : types.Accepts t)
    (exported : Export) :
    Leaves (aliasWords t) [] (typeAliasDeclaration types exported) (Aliases t) := by
  have ht : Leaves t.words [] types.typeExpr (·.erase = t.erase) := by
    have ht := h.typeExpr [] (by decide)
    rwa [List.append_nil] at ht
  refine .spanned (.require_bind rfl fun _ _ => .bind (leaves_nameWithSpan "a") fun name _ => ?_)
  refine .bind (.after_of_ne (by simp [headKind, Kind.word]) _) fun tps _ => ?_
  refine .require_bind rfl fun _ _ => ?_
  refine .bind ht fun aliased haliased => .bind leaves_statementEnd fun _ _ => ?_
  exact .pure fun span => ⟨_, rfl, haliased⟩

theorem leaves_aliasStatement {types : Level} {body : Parser (List Statement)} {t : TypeExpr}
    (h : types.Accepts t) :
    Leaves (aliasWords t) [] (statement types body) fun s => Aliases t s.declaration := by
  refine leaves_statement (by simp [headKind, aliasWords, Kind.word]) ?_
  refine .accept_of_ne (by simp [headKind, aliasWords, Kind.word]) ?_
  refine .peek2_bind fun a b ha _ => ?_
  have hkind : a.kind = .kwType := ha
  dsimp only
  rw [hkind]
  exact leaves_typeAliasDeclaration h .none

end Parser

/-- A file that declares the type `a` to be `t`. -/
def aliasSource (t : TypeExpr) : String := String.ofList (spaced (Parser.aliasWords t))

/-- The file is parsed if there is room for the type. -/
theorem parseWithin_aliasSource {room : Nat} {t : TypeExpr} (h : t.Admissible room) :
    ∃ file s d, parseWithin room (aliasSource t) = .ok file ∧ file.body = [s] ∧
      s.declaration = .ofTypeAlias d ∧ d.body.erase = t.erase := by
  have hname : (Word.ofName "a").Spelled := Spelt.ofName (by decide)
  have hspelt : Spelt (Parser.aliasWords t) :=
    .fixed (by decide) (.cons hname (.fixed (by decide) h.spelt))
  obtain ⟨file, b, hrun, -, s, hbody, d, hd, herase⟩ :=
    Parser.leaves_file_single (by simp [headKind, Parser.aliasWords, Kind.word])
      (Parser.leaves_aliasStatement (Level.accepts_ofRoom h)) _ (Buffer.faces_ofSource hspelt)
  refine ⟨file, s, d, ?_, hbody, hd, herase⟩
  rw [parseWithin, aliasSource, hrun]

/-! ## Wrapping types -/

theorem Node.Reaches.trans {outer node part : Node} {inwards back inwards' back' : Nat}
    (h : outer.Reaches inwards back node) (h' : node.Reaches inwards' back' part) :
    outer.Reaches (inwards + inwards') (back + back') part := by
  induction h' with
  | refl => exact h
  | inside _ hpart ih => exact .inside ih hpart
  | before _ hpart ih => exact .before ih hpart

/-- A name with so many suffixes behind it. -/
def TypeExpr.suffixed : Nat → TypeExpr
  | 0 => .reference .nowhere (.identifier "b") none
  | k + 1 => .array .nowhere false (suffixed k)

/-- A name in so many parentheses. -/
def TypeExpr.enclosed : Nat → TypeExpr
  | 0 => .reference .nowhere (.identifier "b") none
  | k + 1 => .parenthesized .nowhere (enclosed k)

/-- Suffixes take up no room. -/
theorem TypeExpr.admissible_suffixed (levels k : Nat) : (suffixed k).Admissible (levels + 1) := by
  induction k with
  | zero => exact .intro (by decide) (by simp [suffixed, beside]) (by simp [suffixed, within])
  | succ k ih =>
    refine .intro ?_ (by simpa [suffixed, beside] using ih) (by simp [suffixed, within])
    cases k <;> rfl

theorem TypeExpr.admissible_enclosed (k : Nat) : (enclosed k).Admissible (k + 1) := by
  induction k with
  | zero => exact .intro (by decide) (by simp [enclosed, beside]) (by simp [enclosed, within])
  | succ k ih =>
    exact .intro rfl (by simp [enclosed, beside]) (by simpa [enclosed, within] using ih)

theorem reaches_suffixed {k : Nat} {t : TypeExpr} (h : t.erase = (TypeExpr.suffixed k).erase) :
    ∃ node, (Node.type t).Reaches 0 k node := by
  induction k generalizing t with
  | zero => exact ⟨_, .refl⟩
  | succ k ih =>
    cases t with
    | array span readonly element =>
      obtain ⟨node, hnode⟩ := ih (TypeExpr.array.inj h).2.2
      have hstep : (Node.type (.array span readonly element)).Reaches 0 1 (.type element) :=
        .before .refl (List.mem_singleton_self _)
      exact ⟨node, by simpa [Nat.add_comm] using hstep.trans hnode⟩
    | _ => cases h

theorem reaches_enclosed {k : Nat} {t : TypeExpr} (h : t.erase = (TypeExpr.enclosed k).erase) :
    ∃ node, (Node.type t).Reaches k 0 node := by
  induction k generalizing t with
  | zero => exact ⟨_, .refl⟩
  | succ k ih =>
    cases t with
    | parenthesized span inner =>
      obtain ⟨node, hnode⟩ := ih (TypeExpr.parenthesized.inj h).2
      have hstep : (Node.type (.parenthesized span inner)).Reaches 1 0 (.type inner) :=
        .inside .refl (List.mem_singleton_self _)
      exact ⟨node, by simpa [Nat.add_comm] using hstep.trans hnode⟩
    | _ => cases h

/-- What is reached from the type of an alias is reached from the file, one step further inside. -/
theorem reaches_of_alias {file : File} {s : Statement} {d : TypeAlias} {inwards back : Nat}
    {node : Node} (hbody : file.body = [s]) (hd : s.declaration = .ofTypeAlias d)
    (h : (Node.type d.body).Reaches inwards back node) :
    (Node.block file.body).Reaches (inwards + 1) back node := by
  have hstep : (Node.block file.body).Reaches 1 0 (.type d.body) := by
    refine .inside .refl ?_
    simp [Node.inside, hbody, hd, Declaration.inside]
  simpa [Nat.add_comm] using hstep.trans h

theorem exists_enclosed (k : Nat) : ∃ file node,
    parseWithin (k + 1) (aliasSource (TypeExpr.enclosed k)) = .ok file ∧
      (Node.block file.body).Reaches (k + 1) 0 node := by
  obtain ⟨file, s, d, hfile, hbody, hd, herase⟩ :=
    parseWithin_aliasSource (TypeExpr.admissible_enclosed k)
  obtain ⟨node, hnode⟩ := reaches_enclosed herase
  exact ⟨file, node, hfile, reaches_of_alias hbody hd hnode⟩

/-! ## The limit -/

instance : Buffer.IsInvariant fun _ => True := .of_move (fun _ => trivial) fun _ _ => trivial

theorem shallow_of_parseWithin {room : Nat} {source : String} {file : File}
    (h : parseWithin room source = .ok file) :
    Node.Shallow (3 * room + 3) (.block file.body) := by
  unfold parseWithin at h
  split at h
  · rename_i hparse
    obtain rfl := Except.ok.inj h
    exact (Parser.shallow_file (I := fun _ => True) room).value trivial hparse
  · cases h

/-- Types, names and blocks of a file stand inside one another to a limited depth, and a file that
would be nested deeper is refused for that. -/
theorem nesting_limited (source : String) :
    (∀ file, parse source = .ok file → ∀ inwards back node,
      (Node.block file.body).Reaches inwards back node → inwards ≤ 3 * maxNesting + 2) ∧
    ∀ room file inwards back node, parseWithin room source = .ok file →
      (Node.block file.body).Reaches inwards back node → 3 * maxNesting + 2 < inwards →
      ∃ e, parse source = .error e ∧ e.cause = .nestingTooDeep := by
  have hlimit : ∀ file, parse source = .ok file → ∀ inwards back node,
      (Node.block file.body).Reaches inwards back node → inwards ≤ 3 * maxNesting + 2 := by
    intro file hfile inwards back node hreaches
    have := (shallow_of_parseWithin hfile).inwards_lt hreaches
    omega
  refine ⟨hlimit, ?_⟩
  intro room file inwards back node hfile hreaches hdeep
  have hlt := (shallow_of_parseWithin hfile).inwards_lt hreaches
  have hroom : maxNesting ≤ room := by omega
  rcases parseWithin_of_le hroom source with hsame | hfails
  · have := hlimit file (hsame.trans hfile) inwards back node hreaches
    omega
  · exact hfails

/-- A type in 99 parentheses is within the limit. One in 302 parentheses is not: with room enough
there would be a tree, but it is refused. -/
theorem nesting_limited_enclosed :
    (∃ file node, parse (aliasSource (TypeExpr.enclosed 99)) = .ok file ∧
      (Node.block file.body).Reaches 100 0 node ∧ 100 ≤ 3 * maxNesting + 2) ∧
    (∃ file node, parseWithin 303 (aliasSource (TypeExpr.enclosed 302)) = .ok file ∧
      (Node.block file.body).Reaches 303 0 node ∧
      ∃ e, parse (aliasSource (TypeExpr.enclosed 302)) = .error e ∧ e.cause = .nestingTooDeep) := by
  constructor
  · obtain ⟨file, node, hfile, hnode⟩ := exists_enclosed 99
    exact ⟨file, node, hfile, hnode, (nesting_limited _).1 file hfile _ _ node hnode⟩
  · obtain ⟨file, node, hfile, hnode⟩ := exists_enclosed 302
    exact ⟨file, node, hfile, hnode,
      (nesting_limited _).2 303 file _ _ node hfile hnode (by decide)⟩

/-- No bound holds for how many types enclose one another: a name may have any number of suffixes
behind it. -/
theorem nesting_unlimited : ¬ ∃ bound, ∀ source file inwards back node,
    parse source = .ok file → (Node.block file.body).Reaches inwards back node →
      inwards + back ≤ bound := by
  rintro ⟨bound, hbound⟩
  obtain ⟨file, s, d, hfile, hbody, hd, herase⟩ :=
    parseWithin_aliasSource (TypeExpr.admissible_suffixed (maxNesting - 1) bound)
  obtain ⟨node, hnode⟩ := reaches_suffixed herase
  have hle := hbound _ file _ _ node hfile (reaches_of_alias hbody hd hnode)
  omega

end Ambient
