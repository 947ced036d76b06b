import Ambient.Proofs.Courses
import Ambient.Proofs.Room
/-!
# The nesting guard

How deep types and blocks are nested can also be counted while parsing: a counter goes up before
each way in and down behind it, whatever came of it, and at the limit a way in is refused. The
parsers take the same courses under that guard (`Course.Counts`), so it gives the same replies as
the parsers with that much room. Of the counter itself it is proved that it is back where it was at
the end, that it counts the levels that are open, and that only a refusal at the limit makes the
nesting too deep (`Operation.counts_balanced`).
-/

namespace Ambient

variable {α : Type}

/-! ## Behind a way in -/

/-- What is parsed behind a way in, with the parsers for what lies another level further in. -/
def Passage.parser : (p : Passage) → Inner → Parser p.Value
  | .type, i => .anyType i.types
  | .operand, i => .operatorType i.types
  | .block, i => .statements i.types i.body .braceClose

instance Passage.charted (p : Passage) : Parser.Charted p.parser := by
  cases p
  · exact Parser.charted_anyType
  · exact Parser.charted_operatorType
  · exact Parser.charted_statements .braceClose

namespace Inner

/-- The parsers for what may be nested `room` levels deep. -/
def ofRoom (room : Nat) : Inner := ⟨Level.ofRoom room, Parser.blockBody Level.ofRoom room⟩

theorem behind_ofRoom_zero (p : Passage) : (ofRoom 0).behind p = Parser.tooDeep := by
  cases p <;> rfl

theorem behind_ofRoom_succ (room : Nat) (p : Passage) :
    (ofRoom (room + 1)).behind p = p.parser (ofRoom room) := by
  cases p <;> rfl

end Inner

/-! ## Counting levels -/

/-- What happens at a way in. -/
inductive Event where
  | enters
  | leaves
  | refuses
deriving DecidableEq

/-- A moment at which a way in is entered, left or refused: how many levels are open from then on,
where the counter stands, and the buffer. -/
structure Moment where
  event : Event
  opened : Nat
  depth : Nat
  buffer : Buffer

/-- What a parser under the guard comes to: its reply, where it leaves the counter, and the moments
on the way. -/
structure Counted (α : Type) where
  reply : Reply α
  depth : Nat
  moments : List Moment

namespace Course

/-- How the course goes on behind a way in. -/
def resume {p : Passage} (next : p.Value → Buffer → Course α) : Reply p.Value → Course α
  | .ok a b => next a b
  | .fail e b => stop (.fail e b)

theorem run_enter (i : Inner) (p : Passage) (b : Buffer) (next : p.Value → Buffer → Course α) :
    (enter p b next).run i = (resume next (i.behind p b)).run i := by
  rw [run]
  cases i.behind p b <;> rfl

/-- The course under a guard that counts up to `limit`, from where `opened` levels are open and the
counter stands at `depth`. -/
inductive Counts (limit : Nat) : {α : Type} → (opened depth : Nat) → Course α → Counted α → Prop
  | stop {α : Type} {opened depth : Nat} {reply : Reply α} :
    Counts limit opened depth (.stop reply) ⟨reply, depth, []⟩
  /-- At the limit no level is opened. The error is about the next token. -/
  | refuse {α : Type} {opened depth : Nat} {p : Passage} {b : Buffer}
      {next : p.Value → Buffer → Course α} :
    limit ≤ depth →
    Counts limit opened depth (.enter p b next)
      ⟨.fail (b.look.1.error .nestingTooDeep) b.look.2, depth, [⟨.refuses, opened, depth, b⟩]⟩
  /-- Below the limit the counter goes up by one, and behind the way in it goes down by one, whether
  that was a success or a failure. -/
  | enter {α : Type} {opened depth : Nat} {p : Passage} {b : Buffer}
      {next : p.Value → Buffer → Course α} {c : Course p.Value} {r : Counted p.Value}
      {o : Counted α} :
    depth < limit → c.Charts p.parser b →
    Counts limit (opened + 1) (depth + 1) c r →
    Counts limit opened (r.depth - 1) (resume next r.reply) o →
    Counts limit opened depth (.enter p b next)
      ⟨o.reply, o.depth,
        ⟨.enters, opened + 1, depth + 1, b⟩ :: r.moments ++
          ⟨.leaves, opened, r.depth - 1, r.reply.buffer⟩ :: o.moments⟩

namespace Counts

variable {limit opened depth : Nat} {c : Course α} {o : Counted α}

/-- The counter is back where it was. -/
theorem depth_eq (h : c.Counts limit opened depth o) : o.depth = depth := by
  induction h with
  | stop => rfl
  | refuse => rfl
  | enter _ _ _ _ ih ih' => rw [ih', ih, Nat.add_sub_cancel]

/-- On the way the counter counts the open levels, and it stays within the limit. -/
theorem between (h : c.Counts limit opened depth o) (hdepth : depth ≤ limit) :
    ∀ m ∈ o.moments, m.depth + opened = depth + m.opened ∧ m.depth ≤ limit := by
  induction h with
  | stop => simp
  | refuse => simpa using hdepth
  | enter hlt _ hin _ ih ih' =>
    rw [hin.depth_eq, Nat.add_sub_cancel] at ih' ⊢
    simp only [List.cons_append, List.forall_mem_cons, List.forall_mem_append]
    refine ⟨⟨by omega, hlt⟩, fun m hm => ?_, ⟨trivial, hdepth⟩, ih' hdepth⟩
    have hm := ih hlt m hm
    omega

/-- Under the guard the reply is that of the parsers with as much room as the limit leaves. -/
theorem reply_eq (h : c.Counts limit opened depth o) :
    o.reply = c.run (.ofRoom (limit - depth)) := by
  induction h with
  | stop => rfl
  | refuse hle =>
    rw [run_enter, Nat.sub_eq_zero_of_le hle, Inner.behind_ofRoom_zero]
    rfl
  | @enter _ _ depth p b next c r o hlt hc hin _ ih ih' =>
    have hroom : limit - depth = limit - (depth + 1) + 1 := by omega
    rw [run_enter, hroom, Inner.behind_ofRoom_succ, hc.run, ← ih, ih', hin.depth_eq, ← hroom,
      Nat.add_sub_cancel]

theorem reply_of_stop {reply : Reply α} (h : (Course.stop reply).Counts limit opened depth o) :
    o.reply = reply := by
  cases h
  rfl

/-- Where the nesting is found too deep, a way in was refused, and the error is about the token that
came next there. -/
theorem exists_refused (h : c.Counts limit opened depth o) (hc : c.IsRoomy) {e : SyntaxError}
    {b : Buffer} (hreply : o.reply = .fail e b) (hcause : e.cause = .nestingTooDeep) :
    ∃ m ∈ o.moments, m.event = .refuses ∧ limit ≤ m.depth ∧
      e = m.buffer.look.1.error .nestingTooDeep := by
  induction h generalizing e b with
  | stop =>
    cases hreply
    exact absurd hcause hc
  | refuse hle =>
    cases hreply
    exact ⟨_, List.mem_singleton_self _, rfl, hle, rfl⟩
  | @enter _ _ depth p b next c r o hlt hchart hin hout ih ih' =>
    cases hr : r.reply with
    | ok a b' =>
      rw [hr] at ih'
      obtain ⟨m, hm, hrefused⟩ := ih' (hc a b') hreply hcause
      exact ⟨m, by simp [hm], hrefused⟩
    | fail e' b' =>
      rw [hr] at hout
      cases hout.reply_of_stop.symm.trans hreply
      obtain ⟨m, hm, hrefused⟩ := ih hchart.isRoomy hr hcause
      exact ⟨m, by simp [hm], hrefused⟩

/-- A refusal ends the course with its error. -/
theorem reply_of_refused (h : c.Counts limit opened depth o) {m : Moment} (hm : m ∈ o.moments)
    (hrefused : m.event = .refuses) :
    ∃ b, o.reply = .fail (m.buffer.look.1.error .nestingTooDeep) b := by
  induction h with
  | stop => simp at hm
  | refuse =>
    cases List.mem_singleton.1 hm
    exact ⟨_, rfl⟩
  | enter _ _ _ hout ih ih' =>
    simp only [List.cons_append, List.mem_cons, List.mem_append] at hm
    rcases hm with rfl | hm | rfl | hm
    · cases hrefused
    · obtain ⟨b, hr⟩ := ih hm
      rw [hr] at hout
      exact ⟨b, hout.reply_of_stop⟩
    · cases hrefused
    · exact ih' hm

end Counts

/-- Every course can be taken under the guard. -/
theorem exists_counts (limit opened depth : Nat) (c : Course α) :
    ∃ o, c.Counts limit opened depth o := by
  -- outer induction on the levels left, inner one on the course
  induction hroom : limit - depth generalizing α opened depth with
  | zero =>
    cases c with
    | stop reply => exact ⟨_, .stop⟩
    | enter p b next => exact ⟨_, .refuse (Nat.sub_eq_zero_iff_le.1 hroom)⟩
  | succ room ih =>
    induction c with
    | stop reply => exact ⟨_, .stop⟩
    | enter p b next ihnext =>
      have hlt : depth < limit := by omega
      obtain ⟨c, hc⟩ := p.charted.course b
      obtain ⟨r, hr⟩ := ih (opened + 1) (depth + 1) c (by omega)
      -- behind the way in the counter stands at `depth` again
      obtain ⟨o, ho⟩ : ∃ o, (resume next r.reply).Counts limit opened (r.depth - 1) o := by
        rw [hr.depth_eq, Nat.add_sub_cancel]
        cases r.reply with
        | ok a b' => exact ihnext a b'
        | fail e b' => exact ⟨_, .stop⟩
      exact ⟨_, .enter hlt hc hr ho⟩

end Course

/-! ## Operations of the parser -/

namespace Parser

/-- A whole declaration file, with the parsers for what lies one level further in. -/
def fileWith (i : Inner) : Parser File := do
  let body ← statements i.types i.body .endOfFile
  let _ ← require .endOfFile
  return { span := ← sourceSpan, body }

theorem fileWith_ofRoom (room : Nat) : fileWith (.ofRoom room) = file Level.ofRoom room := rfl

instance charted_fileWith : Charted fileWith := by
  unfold fileWith
  infer_instance

end Parser

/-- The operations of the parser, with what they read. -/
inductive Operation : Type → Type where
  | typeExpr : Operation TypeExpr
  | typeReference : Operation TypeExpr
  | typeParameters : Operation (Option (List TypeParameter))
  | parameters : Operation (List Parameter)
  | typeMembers : Operation (List Member)
  | classMembers : Operation (List Member)
  | file : Operation File
  | statements (close : Kind) : Operation (List Statement)
  | statement : Operation Statement
  | moduleDeclaration : Operation Declaration
  | namespaceDeclaration (exported : Export) : Operation Declaration
  | globalDeclaration : Operation Declaration
  | variableDeclaration (exported : Export) : Operation Declaration
  | functionDeclaration (exported : Export) : Operation Declaration
  | typeAliasDeclaration (exported : Export) : Operation Declaration
  | interfaceDeclaration (exported : Export) : Operation Declaration
  | classDeclaration (exported : Export) : Operation Declaration
  | enumDeclaration (exported : Export) : Operation Declaration
  | importStatement : Operation Declaration
  | exportAssignment : Operation Declaration
  | exportAsNamespace : Operation Declaration
  | exportList : Operation Declaration

namespace Operation

/-- The parser of an operation, with the parsers for what lies one level further in. -/
def parser : Operation α → Inner → Parser α
  | typeExpr, i => i.types.typeExpr
  | typeReference, i => .typeReference i.types
  | typeParameters, i => .typeParameters i.types
  | parameters, i => .parameters i.types
  | typeMembers, i => .typeMembers i.types
  | classMembers, i => .classMembers i.types
  | file, i => .fileWith i
  | statements close, i => .statements i.types i.body close
  | statement, i => .statement i.types i.body
  | moduleDeclaration, i => .moduleDeclaration i.body
  | namespaceDeclaration exported, i => .namespaceDeclaration i.body exported
  | globalDeclaration, i => .globalDeclaration i.body
  | variableDeclaration exported, i => .variableDeclaration i.types exported
  | functionDeclaration exported, i => .functionDeclaration i.types exported
  | typeAliasDeclaration exported, i => .typeAliasDeclaration i.types exported
  | interfaceDeclaration exported, i => .interfaceDeclaration i.types exported
  | classDeclaration exported, i => .classDeclaration i.types exported
  | enumDeclaration exported, _ => .enumDeclaration exported
  | importStatement, _ => .importStatement
  | exportAssignment, _ => .exportAssignment
  | exportAsNamespace, _ => .exportAsNamespace
  | exportList, _ => .exportList

theorem charted (op : Operation α) : Parser.Charted op.parser := by
  suffices h : Parser.Charted fun i => op.parser i from h
  cases op <;> dsimp only [parser] <;> infer_instance

/-- The operation under a guard that counts up to `limit`, from buffer `b` and with the counter at
`depth`. -/
def Counts (op : Operation α) (limit depth : Nat) (b : Buffer) (o : Counted α) : Prop :=
  ∃ c : Course α, c.Charts op.parser b ∧ c.Counts limit 0 depth o

namespace Counts

variable {op : Operation α} {limit depth : Nat} {b : Buffer} {o : Counted α}

theorem reply_eq (h : op.Counts limit depth b o) :
    o.reply = op.parser (.ofRoom (limit - depth)) b := by
  obtain ⟨c, hc, hcounts⟩ := h
  rw [hc.run, hcounts.reply_eq]

theorem depth_eq (h : op.Counts limit depth b o) : o.depth = depth := by
  obtain ⟨c, -, hcounts⟩ := h
  exact hcounts.depth_eq

theorem between (h : op.Counts limit depth b o) (hdepth : depth ≤ limit) :
    ∀ m ∈ o.moments, m.depth = depth + m.opened ∧ m.depth ≤ limit := by
  obtain ⟨c, -, hcounts⟩ := h
  exact hcounts.between hdepth

/-- The nesting is found too deep where a way in is refused at the limit, and nowhere else. -/
theorem fails_iff (h : op.Counts limit depth b o) (hdepth : depth ≤ limit) (e : SyntaxError) :
    ((∃ b', o.reply = .fail e b') ∧ e.cause = .nestingTooDeep) ↔
      ∃ m ∈ o.moments, m.event = .refuses ∧ m.depth = limit ∧
        e = m.buffer.look.1.error .nestingTooDeep := by
  obtain ⟨c, hc, hcounts⟩ := h
  constructor
  · rintro ⟨⟨b', hreply⟩, hcause⟩
    obtain ⟨m, hm, hrefused, hle, he⟩ := hcounts.exists_refused hc.isRoomy hreply hcause
    exact ⟨m, hm, hrefused, Nat.le_antisymm (hcounts.between hdepth m hm).2 hle, he⟩
  · rintro ⟨m, hm, hrefused, -, rfl⟩
    exact ⟨hcounts.reply_of_refused hm hrefused, rfl⟩

end Counts

theorem exists_counts (op : Operation α) (limit depth : Nat) (b : Buffer) :
    ∃ o, op.Counts limit depth b o := by
  obtain ⟨c, hc⟩ := op.charted.course b
  obtain ⟨o, ho⟩ := c.exists_counts limit 0 depth
  exact ⟨o, c, hc, ho⟩

end Operation

theorem exists_fail_of_parseWithin {room : Nat} {source : String} {e : SyntaxError}
    (h : parseWithin room source = .error e) :
    ∃ b, Operation.file.parser (.ofRoom room) (.ofSource source) = .fail e b := by
  unfold parseWithin at h
  rw [Operation.parser, Parser.fileWith_ofRoom]
  split at h
  · cases h
  · rename_i b hfail
    cases h
    exact ⟨b, hfail⟩

/-- The nesting guard is balanced and transparent. Whatever an operation of the parser comes to, the
counter is back where it was, and on the way it counts the open levels and stays within the limit;
the reply is that of the parsers with the room that is left, and the nesting is too deep where a way
in is refused at the limit. A higher limit changes nothing for a source that is not nested too deep;
for one that is, the error is about the token that came next when as many levels were open as the
limit allows. -/
theorem Operation.counts_balanced :
    (∀ {α : Type} (op : Operation α) (limit depth : Nat) (b : Buffer), depth ≤ limit →
      (∃ o, op.Counts limit depth b o) ∧
      ∀ o, op.Counts limit depth b o →
        o.reply = op.parser (.ofRoom (limit - depth)) b ∧
        o.depth = depth ∧
        (∀ m ∈ o.moments, m.depth = depth + m.opened ∧ m.depth ≤ limit) ∧
        ∀ e, ((∃ b', o.reply = .fail e b') ∧ e.cause = .nestingTooDeep) ↔
          ∃ m ∈ o.moments, m.event = .refuses ∧ m.depth = limit ∧
            e = m.buffer.look.1.error .nestingTooDeep) ∧
    ∀ (limit limit' : Nat) (source : String), limit ≤ limit' →
      ((∀ e, parseWithin limit source = .error e → e.cause ≠ .nestingTooDeep) →
        parseWithin limit' source = parseWithin limit source) ∧
      ∀ e, parseWithin limit source = .error e → e.cause = .nestingTooDeep →
        ∀ o, Operation.file.Counts limit 0 (.ofSource source) o →
          ∃ m ∈ o.moments, m.event = .refuses ∧ m.opened = limit ∧
            e = m.buffer.look.1.error .nestingTooDeep := by
  refine ⟨fun op limit depth b hdepth => ⟨op.exists_counts limit depth b, fun o h => ?_⟩,
    fun limit limit' source hle => ⟨fun hroom => ?_, fun e he hcause o h => ?_⟩⟩
  · exact ⟨h.reply_eq, h.depth_eq, h.between hdepth, h.fails_iff hdepth⟩
  · rcases parseWithin_of_le hle source with hsame | ⟨e, he, hcause⟩
    · exact hsame.symm
    · exact absurd hcause (hroom e he)
  · obtain ⟨b', hfail⟩ := exists_fail_of_parseWithin he
    obtain ⟨m, hm, hrefused, hdepth, heq⟩ :=
      (h.fails_iff (Nat.zero_le _) e).1 ⟨⟨b', h.reply_eq.trans hfail⟩, hcause⟩
    refine ⟨m, hm, hrefused, ?_, heq⟩
    have hcount := (h.between (Nat.zero_le _) m hm).1
    omega

/-- A type in parentheses takes two levels. With a limit of one the type inside is refused, with one
level open; a limit beyond two changes nothing. -/
theorem Operation.counts_balanced_parenthesized :
    (∃ o, Operation.file.Counts 1 0 (.ofSource "type t = (a)") o ∧ o.depth = 0 ∧
      ∃ m ∈ o.moments, m.event = .refuses ∧ m.opened = 1 ∧
        m.buffer.look.1.error .nestingTooDeep =
          ⟨.nestingTooDeep, ⟨10, 11⟩, some .identifier⟩) ∧
    (parseWithin 2 "type t = (a)").isOk ∧
    parseWithin 100 "type t = (a)" = parseWithin 2 "type t = (a)" := by
  obtain ⟨hoperations, hsources⟩ := Operation.counts_balanced
  have hevaluated : (parseWithin 1 "type t = (a)").map File.span =
        .error ⟨.nestingTooDeep, ⟨10, 11⟩, some .identifier⟩ ∧
      (parseWithin 2 "type t = (a)").isOk := by
    decide +kernel
  obtain ⟨hdeep, hok⟩ := hevaluated
  refine ⟨?_, hok, (hsources 2 100 _ (by decide)).1 fun e he => ?_⟩
  · obtain ⟨⟨o, ho⟩, hcounted⟩ :=
      hoperations Operation.file 1 0 (.ofSource "type t = (a)") (by decide)
    refine ⟨o, ho, (hcounted o ho).2.1, ?_⟩
    cases hparse : parseWithin 1 "type t = (a)" with
    | ok file =>
      rw [hparse] at hdeep
      cases hdeep
    | error e =>
      rw [hparse] at hdeep
      obtain rfl := Except.error.inj hdeep
      obtain ⟨m, hm, hrefused, hopened, he⟩ := (hsources 1 2 _ (by decide)).2 _ hparse rfl o ho
      exact ⟨m, hm, hrefused, hopened, he.symm⟩
  · rw [he] at hok
    cases hok

end Ambient
