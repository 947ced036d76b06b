import Ambient.Proofs.Coverage
/-!
# Spans nest

In the outline of a file that parses, every node below the root covers whole tokens, its parts lie
inside it, and they come one after the other without overlapping (`arranged_of_parse`).
-/

namespace Ambient

/-- The text that the node covers. -/
def Outline.span : Outline → Span
  | .node _ span _ => span

/-- The span lies inside the other. -/
def Span.Within (a b : Span) : Prop := b.start ≤ a.start ∧ a.stop ≤ b.stop

/-- The span covers one or more whole tokens of the source text, from the start of one to the end of
one, and is cut between characters. -/
structure Span.OnTokens (source : String) (span : Span) : Prop where
  starts : ∃ t ∈ tokenize source, t.kind ≠ .endOfFile ∧ t.span.start = span.start
  stops : ∃ t ∈ tokenize source, t.kind ≠ .endOfFile ∧ t.span.stop = span.stop
  nonempty : span.start < span.stop
  inside : span.stop ≤ source.utf8ByteSize
  startBoundary : String.Pos.Raw.IsValid source ⟨span.start⟩
  stopBoundary : String.Pos.Raw.IsValid source ⟨span.stop⟩

/-- All nodes below this one cover whole tokens, each lies inside the node above it, and the parts
of a node come one after the other. -/
inductive Outline.Arranged (source : String) : Outline → Prop
  | node {label : String} {span : Span} {parts : List Outline} :
    (∀ p ∈ parts, p.span.OnTokens source) → (∀ p ∈ parts, p.span.Within span) →
    parts.Pairwise (fun p q => p.span.stop ≤ q.span.start) →
    (∀ p ∈ parts, Arranged source p) → Arranged source (.node label span parts)

/-! ## Places of the stream -/

namespace Scanner

theorem stop_spanOf (s : Scanner) {a b : Nat} (hab : a < b) :
    (s.spanOf a b).stop = (s.after b).offset := by
  obtain ⟨-, -, -, -, -, -, hstop⟩ := s.exists_text_of_span hab
  exact hstop

/-- The text of a span of tokens, and what stands before and behind it. -/
theorem exists_text_of_spanOf (source : String) {a b : Nat} (hab : a < b) :
    ∃ front text rest, source.toList = front ++ text ++ rest ∧
      ((Scanner.ofSource source).spanOf a b).start = width front ∧
      ((Scanner.ofSource source).spanOf a b).stop = width (front ++ text) := by
  obtain ⟨front, hfront, hoffset⟩ := (Scanner.ofSource source).exists_text (Nat.zero_le a)
  obtain ⟨g, text, -, hrest, hstart, hstop, -⟩ := (Scanner.ofSource source).exists_text_of_span hab
  have hoffset : ((Scanner.ofSource source).after a).offset = width front :=
    hoffset.trans (Nat.zero_add _)
  have hstart : ((Scanner.ofSource source).spanOf a b).start = width (front ++ g) := by
    rw [hstart, hoffset, width_append]
  refine ⟨front ++ g, text, ((Scanner.ofSource source).after b).rest, ?_, hstart, ?_⟩
  · change (Scanner.ofSource source).rest = _
    rw [show (Scanner.ofSource source).rest = front ++ _ from hfront, hrest]
    simp only [List.append_assoc]
  · rw [hstop, hstart, ← width_append]

theorem onTokens_spanOf {source : String} {n a b : Nat}
    (hn : (Scanner.ofSource source).EndsAt n) (hab : a < b) (hbn : b ≤ n) :
    ((Scanner.ofSource source).spanOf a b).OnTokens source := by
  have hmem : ∀ k < n, (Scanner.ofSource source).token k ∈ tokenize source := by
    intro k hk
    rw [tokenize_eq hn]
    exact List.mem_append_left _ (List.mem_map.2 ⟨k, List.mem_range.2 hk, rfl⟩)
  obtain ⟨front, text, rest, hsource, hstart, hstop⟩ := exists_text_of_spanOf source hab
  have htext : width text ≠ 0 := by
    have hlt := hn.start_lt_stop (show a < n by omega)
    have hfirst := ((Scanner.ofSource source).reads_token a).offset
    have hmono := (Scanner.ofSource source).offset_after_mono (show a + 1 ≤ b from hab)
    have hend := (Scanner.ofSource source).stop_spanOf hab
    have hbegin : ((Scanner.ofSource source).spanOf a b).start
        = ((Scanner.ofSource source).token a).span.start := rfl
    rw [width_append] at hstop
    omega
  refine ⟨⟨_, hmem a (by omega), hn.before a (by omega), rfl⟩,
    ⟨_, hmem (b - 1) (by omega), hn.before (b - 1) (by omega), rfl⟩, ?_, ?_, ?_, ?_⟩
  · rw [hstart, hstop, width_append]
    omega
  · rw [hstop, ← width_toList, hsource]
    simp only [width_append]
    omega
  · rw [hstart]
    exact isValid_width (hsource.trans (List.append_assoc ..))
  · rw [hstop]
    exact isValid_width hsource

end Scanner

/-! ## Nodes -/

/-- The outlines that stand between the tokens `i` and `j` cover tokens there, in order, and all
their nodes are arranged. -/
structure Arranges (source : String) (i j : Nat) (os : List Outline) : Prop where
  onTokens : ∀ p ∈ os, p.span.OnTokens source
  starts : ∀ p ∈ os, ((Scanner.ofSource source).token i).span.start ≤ p.span.start
  stops : ∀ p ∈ os, p.span.stop ≤ ((Scanner.ofSource source).after j).offset
  inOrder : os.Pairwise fun p q => p.span.stop ≤ q.span.start
  arranged : ∀ p ∈ os, p.Arranged source

theorem Fits.arranges {source : String} {n i j : Nat} {os : List Outline}
    (h : Fits (Scanner.ofSource source) i j os) (hn : (Scanner.ofSource source).EndsAt n)
    (hj : j ≤ n) : Arranges source i j os := by
  induction h with
  | nil _ => exact ⟨by simp, by simp, by simp, .nil, by simp⟩
  | @cons i a b j label parts os hia hab _ hos ihparts ihos =>
    have hbj := hos.le
    obtain ihparts := ihparts (by omega)
    obtain ihos := ihos hj
    have hspan := Scanner.onTokens_spanOf hn hab (show b ≤ n by omega)
    have hstop := (Scanner.ofSource source).stop_spanOf hab
    have hnode :
        (Outline.node label ((Scanner.ofSource source).spanOf a b) parts).Arranged source :=
      .node ihparts.onTokens
        (fun p hp => ⟨ihparts.starts p hp, (ihparts.stops p hp).trans hstop.ge⟩)
        ihparts.inOrder ihparts.arranged
    refine ⟨?_, ?_, ?_, ?_, ?_⟩
    · simpa using ⟨hspan, ihos.onTokens⟩
    · rintro p (_ | ⟨_, hp⟩)
      · exact (Scanner.ofSource source).start_mono hia
      · exact ((Scanner.ofSource source).start_mono (by omega)).trans (ihos.starts p hp)
    · rintro p (_ | ⟨_, hp⟩)
      · exact hstop.trans_le ((Scanner.ofSource source).offset_after_mono hbj)
      · exact ihos.stops p hp
    · refine .cons (fun q hq => ?_) ihos.inOrder
      have hnext := (Scanner.ofSource source).offset_le_start b
      exact (hstop.trans_le hnext).trans (ihos.starts q hq)
    · rintro p (_ | ⟨_, hp⟩)
      · exact hnode
      · exact ihos.arranged p hp

/-- In a file that parses, every node below the root covers whole tokens and lies inside the node
above it, and the parts of every node stand in order without overlapping. -/
theorem arranged_of_parse {source : String} {file : File} (h : parse source = .ok file) :
    file.outline.Arranged source := by
  obtain ⟨n, hn, -, hspan, -, hfits⟩ := divide_of_parse h
  have harranges := hfits.arranges hn le_rfl
  refine .node harranges.onTokens (fun p hp => ?_) harranges.inOrder harranges.arranged
  rw [hspan]
  exact ⟨Nat.zero_le _, (harranges.onTokens p hp).inside⟩

theorem arranged_of_parse_commented :
    ∃ file, parse commented = .ok file ∧ file.outline.preorder.length = 12 ∧
      file.outline.Arranged commented := by
  have hnodes : (parse commented).toOption.map (·.outline.preorder.length) = some 12 := by
    decide +kernel
  obtain ⟨file, hfile, hnodes⟩ := exists_of_map_toOption hnodes
  exact ⟨file, hfile, hnodes, arranged_of_parse hfile⟩

end Ambient
