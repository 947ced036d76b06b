import Ambient.Proofs.AgreementGrammar
/-!
# Room for nesting

How deep types and blocks may be nested is fixed before a file is parsed. With more room a file is
parsed in the same way, tree or error, unless the room was too small; and then that is the error
(`parseWithin_of_le`).
-/

namespace Ambient

/-- Where there is too little room, more room may lead to anything. Any other error stays. -/
def Tolerance.tooDeep : Tolerance where
  allows e x := e.cause = .nestingTooDeep ∨ x = some e
  refl _ := .inr rfl
  any h _ := h.elim .inl nofun

namespace Parser

theorem looks_tooDeep_left {α : Type} {loose : Bool} (p : Parser α) :
    Looks .tooDeep loose tooDeep p :=
  ⟨fun _ _ _ => .fail (.inl rfl)⟩

end Parser

theorem Level.agree_of_le {room room' : Nat} (h : room ≤ room') :
    Level.Agree .tooDeep (Level.ofRoom room) (Level.ofRoom room') := by
  induction room generalizing room' with
  | zero => exact ⟨Parser.looks_tooDeep_left _, Parser.looks_tooDeep_left _⟩
  | succ room ih =>
    cases room' with
    | zero => cases h
    | succ room' =>
      have hinner := ih (Nat.le_of_succ_le_succ h)
      exact ⟨Parser.looks_anyType, Parser.looks_operatorType⟩

namespace Parser

theorem looks_blockBody_of_le {room room' : Nat} (h : room ≤ room') :
    Looks .tooDeep false (blockBody Level.ofRoom room) (blockBody Level.ofRoom room') := by
  induction room generalizing room' with
  | zero => exact looks_tooDeep_left _
  | succ room ih =>
    cases room' with
    | zero => cases h
    | succ room' =>
      have htypes := Level.agree_of_le (Nat.le_of_succ_le_succ h)
      have hbody := ih (Nat.le_of_succ_le_succ h)
      exact looks_statements .braceClose

theorem looks_file_of_le {room room' : Nat} (h : room ≤ room') :
    Looks .tooDeep false (file Level.ofRoom room) (file Level.ofRoom room') := by
  have htypes := Level.agree_of_le h
  have hbody := looks_blockBody_of_le h
  unfold file
  infer_instance

end Parser

/-- With more room a file is parsed in the same way, unless there was too little room. -/
theorem parseWithin_of_le {room room' : Nat} (h : room ≤ room') (source : String) :
    parseWithin room source = parseWithin room' source ∨
      ∃ e, parseWithin room source = .error e ∧ e.cause = .nestingTooDeep := by
  have hstart : Buffer.Beside (Scanner.ofSource source) 0 0 (Buffer.ofSource source)
      (Buffer.ofSource source) :=
    have hstands := (Buffer.tracks_ofSource source).toStands
    ⟨hstands, hstands, Nat.zero_le _, Nat.zero_le _, rfl⟩
  have hagree := (Parser.looks_file_of_le h).pairs _ _ hstart
  unfold parseWithin
  generalize Parser.file Level.ofRoom room (Buffer.ofSource source) = x at hagree ⊢
  generalize Parser.file Level.ofRoom room' (Buffer.ofSource source) = y at hagree ⊢
  cases hagree with
  | ok => exact .inl rfl
  | @fail e b y hallows =>
    rcases hallows with hcause | herror
    · exact .inr ⟨e, rfl, hcause⟩
    · cases y with
      | ok => cases herror
      | fail e' c =>
        cases herror
        exact .inl rfl
  | astray _ _ _ h => exact absurd h Bool.false_ne_true

end Ambient
