import Ambient.Proofs.LockstepStatements
import Ambient.Proofs.Parsers
/-!
# Every token belongs to a statement

A file that parses has been read to its end. So its token stream reaches the end of the text, and no
token of it is invalid or without text. The statements of the file divide the tokens among them, and
outside the statements there are only white space and comments (`parse_accounts_for_tokens`).
-/

namespace Ambient

/-! ## The stream of a file that parses -/

/-- The buffer stands somewhere in the stream of `s` and has seen only tokens of it. -/
def Buffer.Follows (s : Scanner) (b : Buffer) : Prop :=
  (∃ n, b.scanner = s.after n) ∧ ∀ t ∈ b.seen, ∃ n, t = s.token n

theorem Buffer.Follows.look {s : Scanner} {b : Buffer} (h : b.Follows s) :
    (∃ n, b.look.1 = s.token n) ∧ b.look.2.Follows s := by
  obtain ⟨⟨n, hscanner⟩, hseen⟩ := h
  unfold Buffer.look
  cases hget : b.seen[b.cursor]? with
  | some t => exact ⟨hseen t (Array.mem_of_getElem? hget), ⟨n, hscanner⟩, hseen⟩
  | none =>
    rw [hscanner]
    refine ⟨⟨n, rfl⟩, ⟨n + 1, rfl⟩, fun t ht => ?_⟩
    rcases Array.mem_push.1 ht with ht | rfl
    · exact hseen t ht
    · exact ⟨n, rfl⟩

instance (s : Scanner) : Buffer.IsInvariant (Buffer.Follows s) :=
  .of_move (fun h => h.look.2) fun _ h => h

theorem Parser.gives_require_endOfFile (s : Scanner) :
    Gives (Buffer.Follows s) (require .endOfFile) fun _ => ∃ n, (s.token n).kind = .endOfFile := by
  have hconsume : Gives (Buffer.Follows s) consume fun t => ∃ n, t = s.token n := by
    constructor
    rintro b b' _ hb ⟨⟩
    exact hb.look.1
  unfold require
  refine hconsume.bind fun t ht => ?_
  obtain ⟨n, rfl⟩ := ht
  split
  · rename_i hkind
    exact .pure ⟨n, eq_of_beq hkind⟩
  · exact .failWith

theorem exists_endsAt_of_parse {source : String} {file : File} (h : parse source = .ok file) :
    ∃ n, (Scanner.ofSource source).EndsAt n := by
  have hfile : Parser.Gives (Buffer.Follows (Scanner.ofSource source))
      (Parser.file Level.ofRoom maxNesting)
      fun _ => ∃ n, ((Scanner.ofSource source).token n).kind = .endOfFile := by
    unfold Parser.file
    refine .behind fun ss => (Parser.gives_require_endOfFile _).bind fun t ht => ?_
    exact .behind fun _ => .pure ht
  have hstart : (Buffer.ofSource source).Follows (Scanner.ofSource source) :=
    ⟨⟨0, rfl⟩, fun t ht => by simp [Buffer.ofSource] at ht⟩
  unfold parse parseWithin at h
  split at h
  · rename_i hparse
    obtain ⟨n, hn⟩ := hfile.value hstart hparse
    exact Scanner.exists_endsAt hn
  · cases h

/-- A stream beside itself. -/
def Twin.self {s : Scanner} {n : Nat} (h : s.EndsAt n) : Twin where
  left := s
  right := s
  stop := n
  endsAt := h
  agree _ _ := ⟨rfl, rfl, rfl, fun _ => rfl⟩

/-! ## Statements over the tokens -/

/-- The statement was read from the tokens `i` up to `j` of a source text with `count` tokens: the
parser of statements, standing before token `i`, gives it and then stands before token `j`. -/
def Statement.ReadFrom (source : String) (count i j : Nat) (st : Statement) : Prop :=
  st.span = (Scanner.ofSource source).spanOf i j ∧
    ∃ b b', b.At (Scanner.ofSource source) count i ∧
      Parser.statement (Level.ofRoom maxNesting) (Parser.blockBody Level.ofRoom maxNesting) b
        = .ok st b' ∧
      b'.At (Scanner.ofSource source) count j

/-- The statements divide the tokens `i` up to `j` among them: each is read from one or more tokens,
starting where the one before it stops. -/
inductive Divide (source : String) (count : Nat) : Nat → Nat → List Statement → Prop
  | nil (i : Nat) : Divide source count i i []
  | cons {i j k : Nat} {st : Statement} {ss : List Statement} : i < j →
    st.ReadFrom source count i j → Divide source count j k ss → Divide source count i k (st :: ss)

/-- From `offset` on, where the text is `cs`, there are only gaps outside the spans. -/
def OnlyGapsOutside (offset : Nat) (cs : List Char) : List Span → Prop
  | [] => IsGap cs
  | span :: spans => ∃ g text rest, cs = g ++ (text ++ rest) ∧ IsGap g ∧
    span.start = offset + width g ∧ span.stop = span.start + width text ∧
    OnlyGapsOutside span.stop rest spans

theorem Scanner.exists_text_of_span (s : Scanner) {i j : Nat} (hij : i < j) :
    ∃ g text, IsGap g ∧ (s.after i).rest = g ++ (text ++ (s.after j).rest) ∧
      (s.spanOf i j).start = (s.after i).offset + width g ∧
      (s.spanOf i j).stop = (s.spanOf i j).start + width text ∧
      (s.spanOf i j).stop = (s.after j).offset := by
  have hfirst := s.reads_token i
  obtain ⟨g, hg, hrest, hstart⟩ := hfirst.text
  obtain ⟨others, hothers, hoffset⟩ := s.exists_text (show i + 1 ≤ j from hij)
  have hstop : (s.spanOf i j).stop = (s.after j).offset := by
    have hlast := (s.reads_token (j - 1)).offset
    rw [show j - 1 + 1 = j by omega] at hlast
    exact hlast.symm
  -- the text of the span is its first token and all that lies between that and token `j`
  refine ⟨g, (s.token i).text ++ others, hg, ?_, hstart, ?_, hstop⟩
  · rw [hrest, hothers, List.append_assoc]
  · rw [hstop, hoffset, hfirst.offset, hfirst.stop, width_append]
    exact Nat.add_assoc ..

theorem Divide.onlyGapsOutside {source : String} {count i n : Nat} {ss : List Statement}
    (h : Divide source count i n ss) (hn : (Scanner.ofSource source).EndsAt n) :
    OnlyGapsOutside ((Scanner.ofSource source).after i).offset
      ((Scanner.ofSource source).after i).rest (ss.map Statement.span) := by
  induction h with
  | nil i => exact hn.isGap_rest
  | @cons i j k st ss hij hst _ ih =>
    obtain ⟨g, text, hg, hrest, hstart, hstop, hoffset⟩ :=
      (Scanner.ofSource source).exists_text_of_span hij
    rw [List.map_cons, hst.1]
    refine ⟨g, text, _, hrest, hg, hstart, hstop, ?_⟩
    rw [hoffset]
    exact ih hn

theorem Divide.of_tiles {source : String} {n : Nat} (hn : (Scanner.ofSource source).EndsAt n)
    {i j : Nat} {ss ss' : List Statement} (h : (Twin.self hn).StatementsAt i j ss ss') :
    Divide source n i j ss := by
  induction h with
  | nil i => exact .nil i
  | cons hij hst _ ih => exact .cons hij hst.2 ih

/-- What parsing a file says about its token stream and its statements. -/
theorem divide_of_parse {source : String} {file : File} (h : parse source = .ok file) :
    ∃ n, (Scanner.ofSource source).EndsAt n ∧
      (∀ k < n, ((Scanner.ofSource source).token k).kind ≠ .invalid) ∧
      file.span = ⟨0, source.utf8ByteSize⟩ ∧ Divide source n 0 n file.body ∧
      Fits (Scanner.ofSource source) 0 n (statementsOutline file.body) := by
  obtain ⟨n, hn⟩ := exists_endsAt_of_parse h
  rcases Twin.parse_parse (T := Twin.self hn) rfl rfl with
    ⟨f, f', hf, hf', hclean, hspan, htiles⟩ | ⟨e, e', he, -⟩
  · obtain rfl := Except.ok.inj (h.symm.trans hf)
    have hsame := (htiles.imp fun _ _ _ _ h => h.1).same
    exact ⟨n, hn, fun k hk => hclean k (Nat.zero_le k) hk, hspan, .of_tiles hn htiles,
      hsame.statements.1⟩
  · rw [h] at he
    cases he

/-- Every token of a file that parses is read by exactly one statement: the tokens before the end of
the text are neither invalid nor empty, the statements divide them among themselves, and outside the
statements there are only white space and comments. -/
theorem parse_accounts_for_tokens {source : String} {file : File} (h : parse source = .ok file) :
    ∃ ts last, tokenize source = ts ++ [last] ∧ last.kind = .endOfFile ∧
      (∀ t ∈ ts, t.kind ≠ .endOfFile ∧ t.kind ≠ .invalid ∧ t.span.start < t.span.stop) ∧
      Divide source ts.length 0 ts.length file.body ∧
      OnlyGapsOutside 0 source.toList (file.body.map Statement.span) := by
  obtain ⟨n, hn, hvalid, -, hdivide, -⟩ := divide_of_parse h
  refine ⟨_, _, tokenize_eq hn, hn.ended, ?_, ?_, hdivide.onlyGapsOutside hn⟩
  · intro t ht
    obtain ⟨k, hk, rfl⟩ := List.mem_map.1 ht
    have hlt := List.mem_range.1 hk
    exact ⟨hn.before k hlt, hvalid k hlt, hn.start_lt_stop hlt⟩
  · rw [List.length_map, List.length_range]
    exact hdivide

theorem exists_of_map_toOption {source : String} {α : Type} {f : File → α} {a : α}
    (h : (parse source).toOption.map f = some a) :
    ∃ file, parse source = .ok file ∧ f file = a := by
  cases hparse : parse source with
  | error e => simp [hparse, Except.toOption] at h
  | ok file => exact ⟨file, rfl, by simpa [hparse, Except.toOption] using h⟩

/-- Three statements among comments. -/
def commented : String := "/* a */ declare var x: string; // b\n;interface I { f(): I }\n"

theorem parse_accounts_for_tokens_commented :
    ∃ file, parse commented = .ok file ∧ file.body.length = 3 ∧
      ∃ ts last, tokenize commented = ts ++ [last] ∧ last.kind = .endOfFile ∧
        (∀ t ∈ ts, t.kind ≠ .endOfFile ∧ t.kind ≠ .invalid ∧ t.span.start < t.span.stop) ∧
        Divide commented ts.length 0 ts.length file.body ∧
        OnlyGapsOutside 0 commented.toList (file.body.map Statement.span) := by
  have hlength : (parse commented).toOption.map (·.body.length) = some 3 := by decide +kernel
  obtain ⟨file, hfile, hlength⟩ := exists_of_map_toOption hlength
  exact ⟨file, hfile, hlength, parse_accounts_for_tokens hfile⟩

end Ambient
