import Ambient.Proofs.Facing
/-!
# Words with or without spaces between them

A text is written in words if it is read as these words one after the other, with any number of
spaces before each of them. Then a buffer at the start of the text faces the words
(`Buffer.faces_of_written`). For a fixed text this is decided by reading it (`isWritten`).
-/

namespace Ambient

/-- The text is read as the words, with any number of spaces before each. -/
inductive Written : List Char → List Word → Prop
  | nil : Written [] []
  | space {cs : List Char} {ws : List Word} : Written cs ws → Written (' ' :: cs) ws
  | word {w : Word} {tail : List Char} {ws : List Word} : w.kind ≠ .endOfFile →
    IsSolid (w.text ++ tail) → Lexeme.read (w.text ++ tail) = ⟨w.kind, w.text, tail, none⟩ →
    Written tail ws → Written (w.text ++ tail) (w :: ws)

theorem isSolid_quoted (value tail : List Char) : IsSolid (Name.quoted value ++ tail) :=
  (isSolid_cons (by decide) _).2 (by decide)

namespace Written

variable {cs tail : List Char} {ws : List Word}

/-- A word that is well spelled in front of a space. -/
theorem spelled {w : Word} (hw : w.Spelled) (h : Written tail ws) :
    Written (w.text ++ ' ' :: tail) (w :: ws) := by
  have htail : SpaceFirst (' ' :: tail) := by simp [SpaceFirst]
  exact .word hw.notEnd (hw.solid _ htail) (hw.read _ htail) (.space h)

/-- The word of a sign or a keyword in front of a space. -/
theorem fixed {kind : Kind} (hkind : kind.spelling ≠ []) (h : Written tail ws) :
    Written (kind.spelling ++ ' ' :: tail) (kind.word :: ws) :=
  spelled (Kind.spelled_word hkind) h

/-- A string literal, whatever comes behind it. -/
theorem quoted (value : List Char) (h : Written tail ws) :
    Written (Name.quoted value ++ tail) (⟨.literalString, Name.quoted value⟩ :: ws) :=
  .word (Word.spelled_quoted value).notEnd (isSolid_quoted value tail)
    (Lexeme.read_quoted value tail) h

theorem of_dropWhile (h : Written (cs.dropWhile (· == ' ')) ws) : Written cs ws := by
  induction cs with
  | nil => exact h
  | cons c cs ih =>
    by_cases hc : c = ' '
    · subst hc
      exact .space (ih (by simpa using h))
    · simpa [List.dropWhile_cons, hc] using h

end Written

/-- Whether no gap can start with the text. -/
def isSolidStart (cs : List Char) : Bool :=
  cs.head?.any fun c => c != '/' && !isLineBreak c && !isSpace c

theorem isSolid_of_isSolidStart {cs : List Char} (h : isSolidStart cs) : IsSolid cs := by
  cases cs with
  | nil => exact isSolid_nil
  | cons c cs =>
    simp only [isSolidStart, List.head?_cons, Option.any_some, Bool.and_eq_true, bne_iff_ne,
      Bool.not_eq_true'] at h
    exact (isSolid_cons h.1.1 cs).2 ⟨h.1.2, h.2⟩

/-- Whether the text is read as the words. -/
def isWritten : List Word → List Char → Bool
  | [], cs => (cs.dropWhile (· == ' ')).isEmpty
  | w :: ws, cs =>
    let solid := cs.dropWhile (· == ' ')
    let l := Lexeme.read solid
    isSolidStart solid && l.kind == w.kind && l.text == w.text && w.kind != .invalid
      && w.kind != .endOfFile && isWritten ws l.rest

theorem written_of_isWritten {ws : List Word} {cs : List Char} (h : isWritten ws cs) :
    Written cs ws := by
  induction ws generalizing cs with
  | nil =>
    refine .of_dropWhile ?_
    rw [List.isEmpty_iff.1 h]
    exact .nil
  | cons w ws ih =>
    refine .of_dropWhile ?_
    simp only [isWritten] at h
    generalize cs.dropWhile (· == ' ') = solid at h ⊢
    simp only [Bool.and_eq_true, beq_iff_eq, bne_iff_ne] at h
    obtain ⟨⟨⟨⟨⟨hsolid, hkind⟩, htext⟩, hvalid⟩, hend⟩, hrest⟩ := h
    have hcuts := Lexeme.cuts_read solid
    have hfault := hcuts.faultless (by rw [hkind]; exact hvalid)
    have hsplit : w.text ++ (Lexeme.read solid).rest = solid := by
      rw [← htext]
      exact hcuts.split
    rw [← hsplit]
    refine .word hend ?_ ?_ (ih hrest)
    · rw [hsplit]
      exact isSolid_of_isSolidStart hsolid
    · rw [hsplit, ← hkind, ← htext, ← hfault]

/-! ## The stream of a written text -/

theorem Scanner.next_space (offset : Nat) (cs : List Char) :
    (Scanner.mk offset (' ' :: cs)).next = (Scanner.mk (offset + ' '.utf8Size) cs).next := by
  unfold next
  rw [gap, if_neg (by decide), if_pos (by decide)]
  · simp
  · simp

/-- What counts of a scanner is what it reads next, so spaces in front of it may be passed. -/
theorem Written.spells {cs : List Char} {ws : List Word} (h : Written cs ws) {s r : Scanner}
    {i : Nat} (hnext : (s.after i).next = r.next) (hrest : r.rest = cs) : s.Spells i ws := by
  induction h generalizing r i with
  | nil =>
    have hsolid : IsSolid r.rest := hrest ▸ isSolid_nil
    unfold Scanner.Spells Scanner.token
    rw [hnext, Scanner.next_eq_place hsolid, hrest]
    rfl
  | @space cs ws _ ih =>
    refine ih (r := ⟨r.offset + ' '.utf8Size, cs⟩) ?_ rfl
    rw [hnext, ← Scanner.next_space, ← hrest]
  | @word w tail ws hend hsolid hread _ ih =>
    have hplace : (s.after i).next = Scanner.place false r.offset ⟨w.kind, w.text, tail, none⟩ := by
      rw [hnext, Scanner.next_eq_place (hrest ▸ hsolid), hrest, hread]
    refine ⟨?_, ih (r := s.after (i + 1)) rfl ?_⟩
    · unfold Scanner.token
      rw [hplace]
      exact ⟨rfl, rfl, hend, rfl⟩
    · rw [Scanner.after, hplace]
      rfl

theorem Buffer.faces_of_written {source : String} {ws : List Word}
    (h : Written source.toList ws) : (Buffer.ofSource source).Faces ws := by
  have hspells : (Scanner.ofSource source).Spells 0 ws :=
    h.spells (r := Scanner.ofSource source) rfl rfl
  have hends := hspells.endsAt fun k hk => absurd hk (Nat.not_lt_zero k)
  rw [Nat.zero_add] at hends
  exact ⟨_, 0, (tracks_ofSource _).toStands, hspells, (Buffer.at_ofSource hends).rounds⟩

end Ambient
