import Ambient.Proofs.Failures
import Ambient.Proofs.Hosts
import Ambient.Proofs.Spacing
/-!
# Runs of the command

What a run on a file comes to is one of four outcomes (`Outcome`), of which three are failures: the
file cannot be read, or not be processed, or its text not be written. On every lawful host a failure
leaves everything as it was except standard error, and success changes the destination only
(`run_all_or_nothing`). Whether the declarations are dumped or compiled, a file that does not parse
is reported in the same words.
-/

namespace Ambient.Command

/-! ## Asking for a dump -/

namespace Options

/-- The same options for a run that dumps the declarations. -/
def dumping (o : Options) : Options := { o with ast := true }

theorem ast_setValue {o o' : Options} {flag : Flag} {value : List Char}
    (h : o.setValue flag value = .ok o') : o'.ast = o.ast := by
  cases flag with
  | input | output | indent =>
    rw [setValue] at h
    split at h <;> cases h
    rfl
  | errorFormat =>
    rw [setValue] at h
    split at h
    · cases h
      rfl
    · split at h <;> cases h
      rfl
  | _ =>
    cases h
    rfl

theorem setValue_dumping (o : Options) (flag : Flag) (value : List Char) :
    o.dumping.setValue flag value = (o.setValue flag value).map dumping := by
  cases flag with
  | input | output | indent =>
    simp only [setValue]
    split <;> rfl
  | errorFormat =>
    simp only [setValue]
    split
    · rfl
    · split <;> rfl
  | _ => rfl

theorem ast_set {o : Options} (h : o.ast) (flag : Flag) : (o.set flag).ast := by
  cases flag with
  | ast => rfl
  | _ => exact h

theorem set_dumping (o : Options) (flag : Flag) : o.dumping.set flag = (o.set flag).dumping := by
  cases flag <;> rfl

end Options

/-- The same flags have been given, the one for a dump apart. -/
def GivenAlike (given given' : List Flag) : Prop :=
  ∀ flag, flag ≠ .ast → given'.contains flag = given.contains flag

theorem GivenAlike.cons {given given' : List Flag} (h : GivenAlike given given') (flag : Flag) :
    GivenAlike (flag :: given) (flag :: given') := by
  intro other hother
  simp only [List.contains_cons, h other hother]

theorem Flag.ne_ast_of_takesValue {flag : Flag} (h : flag.takesValue) : flag ≠ .ast := by
  rintro rfl
  cases h

namespace Request

/-- `read` comes to the options `o'` from `o`, and it keeps what has been said about a dump: one
that was asked for stays asked for, and one that is not asked for further on could have been asked
for before. -/
def KeepsDump (o o' : Options) (given : List Flag)
    (read : Options → List Flag → Except UsageError Request) : Prop :=
  (o.ast → o'.ast) ∧ (o'.ast = false → ∀ given', GivenAlike given given' →
    read o.dumping given' = .ok (.process o'.dumping))

theorem keepsDump_setValue {o o' : Options} {given : List Flag} {flag : Flag} {value : List Char}
    {rest : List String}
    (h : (o.setValue flag value >>= (read · (flag :: given) rest)) = .ok (.process o'))
    (ih : ∀ o₁, read o₁ (flag :: given) rest = .ok (.process o') →
      KeepsDump o₁ o' (flag :: given) (read · · rest)) :
    KeepsDump o o' given fun o given =>
      o.setValue flag value >>= (read · (flag :: given) rest) := by
  cases hset : o.setValue flag value with
  | error e =>
    rw [hset] at h
    cases h
  | ok o₁ =>
    rw [hset] at h
    obtain ⟨hast, hdumping⟩ := ih o₁ h
    refine ⟨fun ho => hast (Options.ast_setValue hset ▸ ho), fun ho' given' hgiven => ?_⟩
    dsimp only
    rw [o.setValue_dumping, hset]
    exact hdumping ho' (flag :: given') (hgiven.cons flag)

theorem keepsDump_read {o o' : Options} {given : List Flag} {arguments : List String}
    (h : read o given arguments = .ok (.process o')) :
    KeepsDump o o' given (read · · arguments) := by
  fun_induction read o given arguments with
  | case1 o given =>
    cases h
    exact ⟨id, fun _ _ _ => rfl⟩
  -- two dashes at the end
  | case3 o given argument hargument =>
    cases h
    refine ⟨id, fun _ given' hgiven => ?_⟩
    dsimp only
    rw [read.eq_def]
    dsimp only
    rw [hargument]
  -- a flag with its value in the same argument
  | case6 o given argument flag htakes value rest hnew hargument ih =>
    obtain ⟨hast, hdumping⟩ := keepsDump_setValue h ih
    refine ⟨hast, fun ho' given' hgiven => ?_⟩
    dsimp only
    rw [read.eq_def]
    dsimp only
    rw [hargument]
    dsimp only
    rw [if_pos htakes, if_neg (by rwa [hgiven flag (Flag.ne_ast_of_takesValue htakes)])]
    exact hdumping ho' given' hgiven
  -- a flag with its value in the next argument
  | case10 o given argument flag htakes next rest hvalue hnew hargument ih =>
    obtain ⟨hast, hdumping⟩ := keepsDump_setValue h ih
    refine ⟨hast, fun ho' given' hgiven => ?_⟩
    dsimp only
    rw [read.eq_def]
    dsimp only
    rw [hargument]
    dsimp only
    rw [if_pos htakes, if_neg hvalue,
      if_neg (by rwa [hgiven flag (Flag.ne_ast_of_takesValue htakes)])]
    exact hdumping ho' given' hgiven
  -- a flag without a value
  | case15 o given argument rest flag htakes hhelp hversion hnew hargument ih =>
    obtain ⟨hast, hdumping⟩ := ih h
    refine ⟨fun ho => hast (Options.ast_set ho flag), fun ho' given' hgiven => ?_⟩
    have hflag : flag ≠ .ast := by
      rintro rfl
      rw [hast rfl] at ho'
      cases ho'
    dsimp only
    rw [read.eq_def]
    dsimp only
    rw [hargument]
    dsimp only
    rw [if_neg htakes, if_neg hhelp, if_neg hversion, if_neg (by rwa [hgiven flag hflag]),
      o.set_dumping]
    exact hdumping ho' (flag :: given') (hgiven.cons flag)
  | _ => cases h

/-- One more argument turns a run that compiles into one that dumps. -/
theorem ofArguments_dumping {o : Options} {arguments : List String}
    (h : ofArguments arguments = .ok (.process o)) (ho : o.ast = false) :
    ofArguments ("--ast" :: arguments) = .ok (.process o.dumping) := by
  have hargument : Argument.ofChars "--ast".toList = .known .ast none := by decide
  have hread : ofArguments ("--ast" :: arguments) = read (Options.dumping {}) [.ast] arguments := by
    rw [ofArguments, read.eq_def]
    dsimp only
    rw [hargument]
    rfl
  rw [hread]
  refine (keepsDump_read h).2 ho [.ast] fun flag hflag => ?_
  simp [hflag]

end Request

/-! ## Both ways of processing -/

/-- The whole text for a source: its declarations as JSON and a line break, or its bindings. -/
def Options.Makes (o : Options) (source text : String) : Prop :=
  if o.ast then ∃ file, parse source = .ok file ∧ text = file.toJson.text ++ "\n"
  else ∃ items, bindingsOf source = .ok items ∧ text = o.layout.print o.filename items

theorem Options.process_eq_ok_iff {o : Options} {source text : String} :
    o.process source = .ok text ↔ o.Makes source text := by
  unfold process Makes
  split
  · cases parse source with
    | error e => simp
    | ok file => simp [eq_comm]
  · unfold compile
    cases bindingsOf source with
    | error e => simp
    | ok items => simp [eq_comm]

/-- The source does not parse, and `failure` says where and why. -/
def Malformed (filename source : String) (failure : Failure) : Prop :=
  ∃ e, parse source = .error e ∧ failure = .ofError filename source (.ofSyntaxError e)

theorem Options.process_dumping_eq_error_iff {o : Options} (h : o.ast) {source : String}
    {failure : Failure} :
    o.process source = .error failure ↔ Malformed o.filename source failure := by
  unfold process Malformed
  rw [if_pos h]
  cases parse source with
  | error e => simp [eq_comm]
  | ok file => simp

theorem Options.process_compiling_malformed_iff {o : Options} (h : o.ast = false) {source : String}
    {failure : Failure} :
    (o.process source = .error failure ∧ ∃ ds, failure.problem = .malformed ds) ↔
      Malformed o.filename source failure := by
  unfold process Malformed compile
  rw [if_neg (by simp [h])]
  cases hmade : bindingsOf source with
  | ok items =>
    constructor
    · rintro ⟨hfailure, -⟩
      cases hfailure
    · rintro ⟨e, hparse, -⟩
      rw [bindingsOf_of_syntaxError hparse] at hmade
      cases hmade
  | error e =>
    constructor
    · rintro ⟨hfailure, ds, hproblem⟩
      cases hfailure
      have hmalformed : e.problem.isSyntax := by rw [show e.problem = _ from hproblem]; rfl
      obtain ⟨syntaxError, hparse, rfl⟩ := exists_syntaxError_of_bindingsOf hmade hmalformed
      exact ⟨syntaxError, hparse, rfl⟩
    · rintro ⟨syntaxError, hparse, rfl⟩
      rw [bindingsOf_of_syntaxError hparse] at hmade
      cases hmade
      exact ⟨rfl, _, rfl⟩

theorem Options.failureText_ne_empty (o : Options) (failure : Failure) :
    o.failureText failure ≠ "" := by
  unfold failureText
  split <;> simp

/-! ## What is read, processed and reported -/

section

variable {m : Type → Type} [Monad m] {σ Place : Type}

namespace Host

/-- The source text can be read. -/
def Supplies (host : Host m) (w : World m σ Place) (s : σ) (o : Options) (source : String) : Prop :=
  ∃ bytes, (w.act (host.read o.input) s).1 = .ok bytes ∧ String.fromUTF8? bytes = some source

/-- The text can be written, once the input has been read. -/
def Accepts (host : Host m) (w : World m σ Place) (s : σ) (o : Options) (text : String) : Prop :=
  (w.act (host.write o.output text) (w.act (host.read o.input) s).2).1 = .ok ()

/-- The source text can be read, and processing it comes to `failure`. -/
def Refuses (host : Host m) (w : World m σ Place) (s : σ) (o : Options) (failure : Failure) :
    Prop :=
  ∃ source, host.Supplies w s o source ∧ o.process source = .error failure

end Host

variable {host : Host m} {w : World m σ Place} {s : σ} {o : Options} {source : String}

theorem Host.Supplies.unique {source' : String} (h : host.Supplies w s o source)
    (h' : host.Supplies w s o source') : source = source' := by
  obtain ⟨bytes, hread, hdecode⟩ := h
  obtain ⟨bytes', hread', hdecode'⟩ := h'
  cases hread.symm.trans hread'
  exact Option.some.inj (hdecode.symm.trans hdecode')

theorem World.run_process {arguments : List String} (s : σ)
    (h : Request.ofArguments arguments = .ok (.process o)) :
    w.run host s arguments = w.act (processFile host o) s := by
  rw [run, Command.run, h]

theorem act_giveUp (doing place why : String) (s : σ) :
    w.act (giveUp host doing place why) s =
      (1, (w.act (host.report ("failed to " ++ doing ++ " " ++ place ++ ": " ++ why ++ "\n"))
        s).2) := by
  rw [giveUp, w.act_bind, w.act_pure]

/-- Without a source text there is only a report. -/
theorem act_processFile_unread (h : ¬ ∃ source, host.Supplies w s o source) :
    ∃ why, w.act (processFile host o) s =
      w.act (giveUp host "read" (o.input.getD "stdin") why) (w.act (host.read o.input) s).2 := by
  rw [processFile, w.act_bind]
  cases hread : (w.act (host.read o.input) s).1 with
  | error why => exact ⟨why, rfl⟩
  | ok bytes =>
    cases hdecode : String.fromUTF8? bytes with
    | none =>
      dsimp only
      rw [hdecode]
      exact ⟨_, rfl⟩
    | some source => exact absurd ⟨source, bytes, hread, hdecode⟩ h

/-- A source text that cannot be processed is reported. -/
theorem act_processFile_refused (h : host.Supplies w s o source) {failure : Failure}
    (hfailure : o.process source = .error failure) :
    w.act (processFile host o) s =
      (1, (w.act (host.report (o.failureText failure)) (w.act (host.read o.input) s).2).2) := by
  obtain ⟨bytes, hread, hdecode⟩ := h
  rw [processFile, w.act_bind, hread]
  dsimp only
  rw [hdecode]
  dsimp only
  rw [hfailure]
  dsimp only
  rw [w.act_bind, w.act_pure]

theorem act_processFile_deliver (h : host.Supplies w s o source) {text : String}
    (htext : o.process source = .ok text) :
    w.act (processFile host o) s = w.act (deliver host o text) (w.act (host.read o.input) s).2 := by
  obtain ⟨bytes, hread, hdecode⟩ := h
  rw [processFile, w.act_bind, hread]
  dsimp only
  rw [hdecode]
  dsimp only
  rw [htext]

theorem Host.refuses_dumping_iff (h : o.ast = false) {failure : Failure} :
    host.Refuses w s o.dumping failure ↔
      host.Refuses w s o failure ∧ ∃ ds, failure.problem = .malformed ds := by
  have hsame : ∀ source, o.dumping.process source = .error failure ↔
      o.process source = .error failure ∧ ∃ ds, failure.problem = .malformed ds := fun source =>
    (Options.process_dumping_eq_error_iff rfl).trans
      (Options.process_compiling_malformed_iff h).symm
  constructor
  · rintro ⟨source, hsource, hfailure⟩
    obtain ⟨hfailure, hproblem⟩ := (hsame source).1 hfailure
    exact ⟨⟨source, hsource, hfailure⟩, hproblem⟩
  · rintro ⟨⟨source, hsource, hfailure⟩, hproblem⟩
    exact ⟨source, hsource, (hsame source).2 ⟨hfailure, hproblem⟩⟩

/-- A refused file is reported, and how depends only on the input, the failure and its format. -/
theorem World.run_of_refuses {arguments : List String} {failure : Failure}
    (h : Request.ofArguments arguments = .ok (.process o)) (hrefuses : host.Refuses w s o failure) :
    w.run host s arguments =
      (1, (w.act (host.report (o.failureText failure)) (w.act (host.read o.input) s).2).2) := by
  obtain ⟨source, hsource, hfailure⟩ := hrefuses
  rw [w.run_process s h, act_processFile_refused hsource hfailure]

/-! ## Outcomes -/

variable [DecidableEq Place]

/-- What a run on a file comes to: the exit code and the state afterwards. -/
inductive Outcome (host : Host m) (w : World m σ Place) (s : σ) (o : Options) : Nat × σ → Prop
  | unread {report : String} {after : σ} : (¬ ∃ source, host.Supplies w s o source) →
    report ≠ "" → w.view after = (w.view s).report report → Outcome host w s o (1, after)
  | refused {failure : Failure} {after : σ} : host.Refuses w s o failure →
    w.view after = (w.view s).report (o.failureText failure) → Outcome host w s o (1, after)
  | unwritten {source text report : String} {after : σ} : host.Supplies w s o source →
    o.process source = .ok text → ¬ host.Accepts w s o text → report ≠ "" →
    w.view after = (w.view s).report report → Outcome host w s o (1, after)
  | written {source text : String} {after : σ} : host.Supplies w s o source →
    o.process source = .ok text → host.Accepts w s o text →
    Delivered text (w.view s) o.output (w.view after) → Outcome host w s o (0, after)

theorem fromUTF8?_eq_some_iff {bytes : ByteArray} :
    String.fromUTF8? bytes = some source ↔ source.toUTF8 = bytes := by
  simp only [String.fromUTF8?, Option.dite_none_right_eq_some, Option.some.injEq]
  constructor
  · rintro ⟨_, rfl⟩
    rfl
  · rintro rfl
    exact ⟨source.isValidUTF8, rfl⟩

section

variable (hlawful : host.Lawful w)
include hlawful

/-- The source text is what the input holds. -/
theorem Host.Supplies.holds (h : host.Supplies w s o source) :
    w.Holds s o.input source.toUTF8 := by
  obtain ⟨bytes, hread, hdecode⟩ := h
  rw [fromUTF8?_eq_some_iff.1 hdecode]
  exact hlawful.holds_of_read hread

theorem view_of_report {s' : σ} (h : w.view s' = w.view s) (report : String) :
    w.view (w.act (host.report report) s').2 = (w.view s).report report := by
  rw [hlawful.view_report, h]

/-- A processed text is written, or it is reported why not. -/
theorem outcome_of_deliver (hsource : host.Supplies w s o source) {text : String}
    (htext : o.process source = .ok text) :
    Outcome host w s o (w.act (deliver host o text) (w.act (host.read o.input) s).2) := by
  rw [deliver, w.act_bind]
  cases hwrite : (w.act (host.write o.output text) (w.act (host.read o.input) s).2).1 with
  | ok =>
    dsimp only
    rw [w.act_pure]
    refine .written hsource htext hwrite ?_
    rw [← hlawful.view_read o.input s]
    exact hlawful.delivered_of_write hwrite
  | error why =>
    dsimp only
    rw [act_giveUp]
    have hview := (hlawful.view_write_of_error hwrite).trans (hlawful.view_read o.input s)
    exact .unwritten hsource htext (by simp [Host.Accepts, hwrite]) (by simp)
      (view_of_report hlawful hview _)

theorem outcome_of_run (s : σ) {arguments : List String}
    (h : Request.ofArguments arguments = .ok (.process o)) :
    Outcome host w s o (w.run host s arguments) := by
  rw [w.run_process s h]
  have hview := hlawful.view_read o.input s
  by_cases hsupplies : ∃ source, host.Supplies w s o source
  · obtain ⟨source, hsource⟩ := hsupplies
    cases hprocess : o.process source with
    | error failure =>
      rw [act_processFile_refused hsource hprocess]
      exact .refused ⟨source, hsource, hprocess⟩ (view_of_report hlawful hview _)
    | ok text =>
      rw [act_processFile_deliver hsource hprocess]
      exact outcome_of_deliver hlawful hsource hprocess
  · obtain ⟨why, hunread⟩ := act_processFile_unread hsupplies
    rw [hunread, act_giveUp]
    exact .unread hsupplies (by simp) (view_of_report hlawful hview _)

end

/-! ## Runs -/

/-- A run on a file either succeeds, and then it has written the whole text to its destination and
nothing else, or it fails, and then it has only reported why. If the file is malformed, this is
reported in the same words whether the declarations are to be dumped or compiled. -/
theorem run_all_or_nothing (hlawful : host.Lawful w) (s : σ) {arguments : List String}
    (h : Request.ofArguments arguments = .ok (.process o)) :
    ((w.run host s arguments).1 = 0 ∧
        (∃ source text, host.Supplies w s o source ∧ w.Holds s o.input source.toUTF8 ∧
          o.Makes source text ∧
          Delivered text (w.view s) o.output (w.view (w.run host s arguments).2)) ∨
      (w.run host s arguments).1 = 1 ∧
        (¬ ∃ source text, host.Supplies w s o source ∧ o.Makes source text ∧
          host.Accepts w s o text) ∧
        ∃ report, report ≠ "" ∧
          w.view (w.run host s arguments).2 = (w.view s).report report) ∧
    (o.ast = false →
      Request.ofArguments ("--ast" :: arguments) = .ok (.process o.dumping) ∧
      ∀ dumping, Request.ofArguments dumping = .ok (.process o.dumping) → ∀ failure,
        (host.Refuses w s o.dumping failure ↔
          host.Refuses w s o failure ∧ ∃ ds, failure.problem = .malformed ds) ∧
        (host.Refuses w s o.dumping failure →
          w.run host s dumping = w.run host s arguments ∧ (w.run host s arguments).1 = 1 ∧
            w.view (w.run host s arguments).2 = (w.view s).report (o.failureText failure))) := by
  constructor
  · have houtcome := outcome_of_run hlawful s h
    generalize w.run host s arguments = answer at houtcome
    cases houtcome with
    | unread hsupplies hreport hview =>
      refine .inr ⟨rfl, ?_, _, hreport, hview⟩
      rintro ⟨source, text, hsource, -⟩
      exact hsupplies ⟨source, hsource⟩
    | @refused failure after hrefuses hview =>
      refine .inr ⟨rfl, ?_, _, o.failureText_ne_empty failure, hview⟩
      obtain ⟨source, hsource, hfailure⟩ := hrefuses
      rintro ⟨source', text, hsource', hmakes, -⟩
      rw [hsource.unique hsource', Options.process_eq_ok_iff.2 hmakes] at hfailure
      cases hfailure
    | unwritten hsource htext haccepts hreport hview =>
      refine .inr ⟨rfl, ?_, _, hreport, hview⟩
      rintro ⟨source', text', hsource', hmakes, haccepts'⟩
      rw [hsource.unique hsource', Options.process_eq_ok_iff.2 hmakes] at htext
      cases htext
      exact haccepts haccepts'
    | written hsource htext haccepts hdelivered =>
      exact .inl ⟨rfl, _, _, hsource, hsource.holds hlawful, Options.process_eq_ok_iff.1 htext,
        hdelivered⟩
  · intro hast
    refine ⟨Request.ofArguments_dumping h hast, fun dumping hdumping failure => ?_⟩
    refine ⟨Host.refuses_dumping_iff hast, fun hrefuses => ?_⟩
    have hrefuses' := ((Host.refuses_dumping_iff hast).1 hrefuses).1
    have hreported := World.run_of_refuses h hrefuses'
    rw [World.run_of_refuses hdumping hrefuses, hreported]
    exact ⟨rfl, rfl, view_of_report hlawful (hlawful.view_read o.input s) _⟩

end

/-- A directory that is not on the way to the desk. -/
def pointDirectory : Directory := .inside (.inside .root "tmp") "point"

/-- A file of declarations. -/
def pointSource : String := "declare interface Point \x7b x: number \x7d"

/-- A desk with a file in another directory, and with a text on standard input that does not
parse. -/
def pointDesk : Desk where
  files := [(⟨pointDirectory, "point.d.ts"⟩, pointSource.toUTF8)]
  stdin := "var".toUTF8
  directories := [.inside .root "tmp", pointDirectory]

/-- Asks for the bindings of the file, in a file beside it. -/
def pointOptions : Options :=
  { input := some "/tmp/point/point.d.ts", output := some "/tmp/point/point.ml", indent := 4 }

/-- The bindings of the file. -/
def pointText : String :=
  "(* Generated from /tmp/point/point.d.ts by bind-dts. Do not edit. *)\n\n"
    ++ "module Point = struct\n"
    ++ "    type t = < x : float > Js.t\n"
    ++ "    external x : t -> float = \"x\" [@@bs.get]\n"
    ++ "end\n"

/-- A run that writes a file in another directory, and two runs that refuse standard input. -/
theorem run_all_or_nothing_point : ∃ arguments,
    Request.ofArguments arguments = .ok (.process pointOptions) ∧
      (runOn pointDesk arguments).1 = 0 ∧
      (runOn pointDesk arguments).2.view
        = pointDesk.view.put ⟨pointDirectory, "point.ml"⟩ pointText.toUTF8 ∧
      ∃ failure,
        Desk.host.Refuses Desk.world pointDesk { ast := true, errorFormat := .json } failure ∧
        runOn pointDesk ["--ast", "--error-format", "json"]
          = runOn pointDesk ["--error-format", "json"] ∧
        (runOn pointDesk ["--error-format", "json"]).1 = 1 ∧
        (runOn pointDesk ["--error-format", "json"]).2.view
          = pointDesk.view.report (failure.toJson.text ++ "\n") := by
  have hevaluated :
      Request.ofArguments ["--input", "/tmp/point/point.d.ts", "--output", "/tmp/point/point.ml",
          "--indent", "4"] = .ok (.process pointOptions) ∧
      pointDesk.writable "/tmp/point/point.d.ts" = .ok ⟨pointDirectory, "point.d.ts"⟩ ∧
      pointDesk.writable "/tmp/point/point.ml" = .ok ⟨pointDirectory, "point.ml"⟩ ∧
      pointOptions.process pointSource = .ok pointText ∧
      Request.ofArguments ["--error-format", "json"]
        = .ok (.process { errorFormat := .json }) ∧
      syntaxErrorOf "var"
        = some ⟨.expectedSyntax "identifier", ⟨3, 3⟩, some .endOfFile⟩ := by decide +kernel
  obtain ⟨harguments, hinput, houtput, htext, hcompiling, hmalformed⟩ := hevaluated
  have hsupplies : Desk.host.Supplies Desk.world pointDesk pointOptions pointSource :=
    ⟨_, congrArg (Except.mapError PathError.text) (Desk.readFile_eq_ok_iff.2 ⟨_, hinput, rfl⟩),
      fromUTF8?_eq_some_iff.2 rfl⟩
  have haccepts : Desk.host.Accepts Desk.world pointDesk pointOptions pointText :=
    congrArg Prod.fst (Desk.write_of_writable houtput pointText)
  have hrefuses : Desk.host.Refuses Desk.world pointDesk { ast := true, errorFormat := .json } _ :=
    ⟨"var", ⟨_, rfl, fromUTF8?_eq_some_iff.2 rfl⟩,
      (Options.process_dumping_eq_error_iff rfl).2 ⟨_, parse_eq_error hmalformed, rfl⟩⟩
  obtain ⟨hdumping, hmodes⟩ := (run_all_or_nothing Desk.lawful_host pointDesk hcompiling).2 rfl
  have hmodes := (hmodes _ hdumping _).2 hrefuses
  have hrun := (run_all_or_nothing Desk.lawful_host pointDesk harguments).1
  simp only [Desk.run_world] at hmodes hrun
  refine ⟨_, harguments, ?_⟩
  rcases hrun with ⟨hcode, source, text, hsource, -, hmakes, hdelivered⟩ | ⟨-, hnone, -⟩
  · obtain rfl := hsource.unique hsupplies
    obtain rfl := Except.ok.inj (htext.symm.trans (Options.process_eq_ok_iff.2 hmakes))
    have hview := hdelivered.eq_put (Desk.place?_of_writable houtput)
    exact ⟨hcode, hview, _, hrefuses, hmodes⟩
  · exact absurd ⟨_, _, hsupplies, Options.process_eq_ok_iff.1 htext, haccepts⟩ hnone

end Ambient.Command
