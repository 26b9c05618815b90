import Lexis.Cli.Run
import Lexis.Proofs.Reports

set_option autoImplicit false

/-! # Runs that scan once

A run on a source text shows the tokens of a scan of that text and reports what is wrong with it.
Where the text comes from is settled by the arguments: one given on the command line goes before
any file (`Options.eval?_parse`), and neither the configuration nor the log changes what is found.
So the standard output and the status are told by the text and the form of the output alone
(`shows_runBatch`), and a text gives the same run whether it is given on the command line or read
from a file. -/

namespace Lexis.Cli

/-! ## The source text among the arguments -/

namespace Options

variable {o o' : Options}

theorem eval?_setFile {path : String} (h : o.setFile path = some o') : o'.eval? = o.eval? := by
  unfold setFile at h
  split at h
  · simp at h
  · obtain rfl := Option.some.inj h
    rfl

theorem eval?_setSwitch {name : String} (h : o.setSwitch name = some o') : o'.eval? = o.eval? := by
  unfold setSwitch at h
  split at h
  · obtain rfl := Option.some.inj h
    rfl
  · split at h
    · obtain rfl := Option.some.inj h
      rfl
    · split at h
      · obtain rfl := Option.some.inj h
        rfl
      · simp at h

/-- A source text that is given is not replaced. -/
theorem eval?_setValue {name value source : String} (h : o.setValue name value = some o')
    (hgiven : o.eval? = some source) : o'.eval? = some source := by
  unfold setValue at h
  split at h
  · next heval => simp [hgiven] at heval
  · split at h
    · obtain rfl := Option.some.inj h
      exact hgiven
    · simp at h

theorem eval?_setValue_eval {source : String} (h : o.setValue "--eval" source = some o') :
    o'.eval? = some source := by
  unfold setValue at h
  split at h
  · obtain rfl := Option.some.inj h
    rfl
  · simp at h

theorem eval?_addFiles {paths : List String} (h : o.addFiles paths = some o') :
    o'.eval? = o.eval? := by
  induction paths generalizing o with
  | nil =>
      obtain rfl : o = o' := Option.some.inj h
      rfl
  | cons path paths ih =>
      obtain ⟨next, hnext, hrest⟩ := Option.bind_eq_some_iff.1 h
      rw [ih hrest, eval?_setFile hnext]

/-- A source text that is given stays to the end of the arguments. -/
theorem eval?_add {args : List String} {source : String} (h : o.add args = some o')
    (hgiven : o.eval? = some source) : o'.eval? = some source := by
  fun_induction add o args with
  | case1 o =>
      obtain rfl := Option.some.inj h
      exact hgiven
  | case2 o args =>
      rw [eval?_addFiles h]
      exact hgiven
  | case3 o arg args _ _ ih =>
      obtain ⟨next, hnext, hrest⟩ := Option.bind_eq_some_iff.1 h
      exact ih next hrest ((eval?_setFile hnext).trans hgiven)
  | case4 o arg args _ _ name value _ ih =>
      obtain ⟨next, hnext, hrest⟩ := Option.bind_eq_some_iff.1 h
      exact ih next hrest (eval?_setValue hnext hgiven)
  | case5 => simp at h
  | case6 o arg _ _ _ _ value args _ ih =>
      obtain ⟨next, hnext, hrest⟩ := Option.bind_eq_some_iff.1 h
      exact ih next hrest (eval?_setValue hnext hgiven)
  | case7 => simp at h
  | case8 o arg args _ _ _ _ ih =>
      obtain ⟨next, hnext, hrest⟩ := Option.bind_eq_some_iff.1 h
      exact ih next hrest ((eval?_setSwitch hnext).trans hgiven)

/-- The one argument that gives a source text. -/
def inlineSource (source : String) : String := "--eval=" ++ source

theorem toList_inlineSource (source : String) :
    (inlineSource source).toList =
      '-' :: '-' :: 'e' :: 'v' :: 'a' :: 'l' :: '=' :: source.toList := by
  simp [inlineSource]

theorem inlineSource_ne (source : String) : inlineSource source ≠ "--" := by
  intro h
  have hlist := congrArg String.toList h
  rw [toList_inlineSource] at hlist
  simp at hlist

theorem isOption_inlineSource (source : String) : isOption (inlineSource source) = true := by
  have hne : inlineSource source ≠ "-" := by
    intro h
    have hlist := congrArg String.toList h
    rw [toList_inlineSource] at hlist
    simp at hlist
  simp [isOption, toList_inlineSource, hne]

theorem splitValue?_inlineSource (source : String) :
    splitValue? (inlineSource source) = some ("--eval", source) := by
  simp [splitValue?, toList_inlineSource]

/-- The argument gives the source text, whatever stands on its two sides, unless the options have
    ended before it. -/
theorem eval?_add_inlineSource {before behind : List String} {source : String}
    (h : o.add (before ++ inlineSource source :: behind) = some o') (hoptions : "--" ∉ before) :
    o'.eval? = some source := by
  generalize hargs : before ++ inlineSource source :: behind = args at h
  fun_induction add o args generalizing before with
  | case1 o => simp at hargs
  | case2 o args =>
      cases before with
      | nil => exact absurd (List.cons.inj hargs).1 (inlineSource_ne source)
      | cons first before =>
          rw [(List.cons.inj hargs).1] at hoptions
          exact absurd List.mem_cons_self hoptions
  | case3 o arg args _ hfile ih =>
      obtain ⟨next, hnext, hrest⟩ := Option.bind_eq_some_iff.1 h
      cases before with
      | nil =>
          rw [← (List.cons.inj hargs).1, isOption_inlineSource] at hfile
          simp at hfile
      | cons first before =>
          exact ih next (List.not_mem_of_not_mem_cons hoptions) (List.cons.inj hargs).2 hrest
  | case4 o arg args _ _ name value hsplit ih =>
      obtain ⟨next, hnext, hrest⟩ := Option.bind_eq_some_iff.1 h
      cases before with
      | nil =>
          rw [← (List.cons.inj hargs).1, splitValue?_inlineSource] at hsplit
          obtain ⟨rfl, rfl⟩ := Prod.mk.inj (Option.some.inj hsplit)
          exact eval?_add hrest (eval?_setValue_eval hnext)
      | cons first before =>
          exact ih next (List.not_mem_of_not_mem_cons hoptions) (List.cons.inj hargs).2 hrest
  | case5 => simp at h
  | case6 o arg _ _ hsplit _ value args hvalue ih =>
      obtain ⟨next, hnext, hrest⟩ := Option.bind_eq_some_iff.1 h
      -- the argument is neither the option without its value nor that value
      match before with
      | [] =>
          rw [← (List.cons.inj hargs).1, splitValue?_inlineSource] at hsplit
          simp at hsplit
      | [first] =>
          rw [← (List.cons.inj (List.cons.inj hargs).2).1, isOption_inlineSource] at hvalue
          exact absurd rfl hvalue
      | first :: second :: before =>
          have hrestOptions := List.not_mem_of_not_mem_cons (List.not_mem_of_not_mem_cons hoptions)
          exact ih next hrestOptions (List.cons.inj (List.cons.inj hargs).2).2 hrest
  | case7 => simp at h
  | case8 o arg args _ _ hsplit _ ih =>
      obtain ⟨next, hnext, hrest⟩ := Option.bind_eq_some_iff.1 h
      cases before with
      | nil =>
          rw [← (List.cons.inj hargs).1, splitValue?_inlineSource] at hsplit
          simp at hsplit
      | cons first before =>
          exact ih next (List.not_mem_of_not_mem_cons hoptions) (List.cons.inj hargs).2 hrest

/-- A command line that has the argument has the source text. -/
theorem eval?_parse {before behind : List String} {source : String}
    (h : parse (before ++ inlineSource source :: behind) = some o') (hoptions : "--" ∉ before) :
    o'.eval? = some source := eval?_add_inlineSource h hoptions

end Options

/-! ## What a run shows -/

/-- A command line that is accepted, does not ask for the version, and whose configuration loads if
    it names one. -/
structure Starts (read : Reading) (args : List String) (o : Options) : Prop where
  accepted : Options.parse args = some o
  no_version : o.version = false
  loads : ∀ path, o.config? = some path →
    ∃ text config, read path = .ok text ∧ ScanConfig.ofDocument text = .ok config

/-- The lines for the tokens of a source text: the text of their dump, or a line for each. -/
def shownLines (json : Bool) (source : String) : List String :=
  if json then [dump .pretty (scan source).tokens] else (scan source).tokens.map Token.listed

/-- A run that shows all tokens of a source text, and reports it exactly if it cannot be lexed. -/
structure Shows (source : String) (json : Bool) (outcome : Outcome) : Prop where
  standard : Output.standard outcome.outputs =
    String.join ((shownLines json source).map (· ++ "\n"))
  problems : Output.problems outcome.outputs = []
  of_failure : ∀ failure, lex source = .error failure →
    outcome.status = 1 ∧ ∃ name, Output.reports outcome.outputs = [{ failure with name := name }]
  of_success : ∀ tokens, lex source = .ok tokens →
    outcome.status = 0 ∧ Output.reports outcome.outputs = []

theorem runBatch_eq (config : ScanConfig) (json : Bool) (name source : String) :
    runBatch config json name source =
      { outputs := ((Scanner.ofConfig config).scan source).2.events.map .log ++
          (shownLines json source).map .line ++
          (if (scan source).errors = [] then []
            else [.report ⟨name, source, (scan source).errors⟩])
        status := if (scan source).errors = [] then 0 else 1 } := by
  simp only [runBatch, Scanner.hadError_scan_iff, ite_not]
  rfl

/-- A part of what a run shows that is not the log. -/
theorem filterMap_runBatch {α : Type} {part? : Output → Option α}
    (hlog : ∀ event, part? (.log event) = none) (config : ScanConfig) (json : Bool)
    (name source : String) :
    (runBatch config json name source).outputs.filterMap part? =
      (shownLines json source).filterMap (fun text => part? (.line text)) ++
        if (scan source).errors = [] then []
        else (part? (.report ⟨name, source, (scan source).errors⟩)).toList := by
  have hevents (events : List Event) : (events.map Output.log).filterMap part? = [] := by
    rw [List.filterMap_map]
    exact List.filterMap_eq_nil_iff.2 fun event _ => hlog event
  rw [runBatch_eq, List.filterMap_append, List.filterMap_append, hevents, List.nil_append,
    List.filterMap_map]
  split
  · rfl
  · rfl

/-- Neither the configuration nor the name of a text changes what is shown of it. -/
theorem shows_runBatch (config : ScanConfig) (json : Bool) (name source : String) :
    Shows source json (runBatch config json name source) := by
  have hnone {α : Type} (lines : List String) : lines.filterMap (fun _ => (none : Option α)) = [] :=
    List.filterMap_eq_nil_iff.2 fun _ _ => rfl
  have hstatus : (runBatch config json name source).status =
      if (scan source).errors = [] then 0 else 1 := by
    rw [runBatch_eq]
  have hlines : (shownLines json source).filterMap (fun text => Output.line? (.line text)) =
      shownLines json source := List.filterMap_some
  have hreports : Output.reports (runBatch config json name source).outputs =
      if (scan source).errors = [] then [] else [⟨name, source, (scan source).errors⟩] := by
    rw [Output.reports, filterMap_runBatch fun _ => rfl]
    exact (congrArg (· ++ _) (hnone _)).trans (List.nil_append _)
  refine ⟨?_, ?_, fun failure hfailure => ?_, fun tokens htokens => ?_⟩
  · rw [Output.standard, filterMap_runBatch fun _ => rfl, hlines]
    split
    · rw [List.append_nil]
    · exact congrArg _ (congrArg _ (List.append_nil _))
  · rw [Output.problems, filterMap_runBatch fun _ => rfl]
    refine (congrArg (· ++ _) (hnone _)).trans ?_
    split
    · rfl
    · rfl
  · rw [lex, lexNamed_eq] at hfailure
    split at hfailure
    · simp at hfailure
    · next herrors =>
        obtain rfl := Except.error.inj hfailure
        rw [hstatus, hreports, if_neg herrors, if_neg herrors]
        exact ⟨rfl, name, rfl⟩
  · rw [lex, lexNamed_eq] at htokens
    split at htokens
    · next herrors =>
        rw [hstatus, hreports, if_pos herrors, if_pos herrors]
        exact ⟨rfl, rfl⟩
    · simp at htokens

variable {read : Reading} {args : List String} {o : Options}

theorem Starts.exists_loadConfig (h : Starts read args o) :
    ∃ config, loadConfig read o = .ok config := by
  cases hpath : o.config? with
  | none =>
      simp only [loadConfig, hpath]
      exact ⟨_, rfl⟩
  | some path =>
      obtain ⟨text, config, hread, hconfig⟩ := h.loads path hpath
      simp only [loadConfig, hpath, hread]
      simp only [Except.mapError, bind, Except.bind, hconfig]
      exact ⟨_, rfl⟩

/-- A command line with a source text scans it once. -/
theorem Starts.shows_run (h : Starts read args o) (input : Repl.Input) {name source : String}
    (hsource : loadSource read o = .ok (some (name, source))) :
    Shows source o.json (run read input args) := by
  obtain ⟨config, hconfig⟩ := h.exists_loadConfig
  have hrun : run read input args = runBatch config o.json name source := by
    simp only [run, h.accepted, start, h.no_version, hconfig, hsource]
    rfl
  rw [hrun]
  exact shows_runBatch config o.json name source

/-- A source text that is given on the command line, whatever file is named besides, and one that is
    read from a file make the same run: the same standard output and the same status. Both runs show
    all tokens of the text, whatever their configurations and with or without the log, and report it
    once exactly if it cannot be lexed. -/
theorem run_inlineSource_eq_run_file {read read' : Reading} (input input' : Repl.Input)
    {source path : String} {before behind args : List String} {o o' : Options}
    (hoptions : "--" ∉ before)
    (hstarts : Starts read (before ++ Options.inlineSource source :: behind) o)
    (hstarts' : Starts read' args o') (hinline : o'.eval? = none) (hfile : o'.file? = some path)
    (hread : read' path = .ok source) (hjson : o.json = o'.json) :
    let outcome := run read input (before ++ Options.inlineSource source :: behind)
    let outcome' := run read' input' args
    Output.standard outcome.outputs = Output.standard outcome'.outputs ∧
      outcome.status = outcome'.status ∧
      Shows source o.json outcome ∧ Shows source o.json outcome' := by
  intro outcome outcome'
  have hsource : loadSource read o = .ok (some ("<eval>", source)) := by
    rw [loadSource, Options.eval?_parse hstarts.accepted hoptions]
  have hsource' : loadSource read' o' = .ok (some (path, source)) := by
    simp only [loadSource, hinline, hfile, hread]
    rfl
  have hshows : Shows source o.json outcome := hstarts.shows_run input hsource
  have hshows' : Shows source o.json outcome' := by
    rw [hjson]
    exact hstarts'.shows_run input' hsource'
  refine ⟨hshows.standard.trans hshows'.standard.symm, ?_, hshows, hshows'⟩
  cases hlex : lex source with
  | error failure => rw [(hshows.of_failure failure hlex).1, (hshows'.of_failure failure hlex).1]
  | ok tokens => rw [(hshows.of_success tokens hlex).1, (hshows'.of_success tokens hlex).1]

/-- Two files: a configuration that turns the log on, and a source text with an error. -/
def loggedFiles : Reading
  | "on" => .ok "\x7b\"log_lexing_pass\": 1\x7d"
  | "a" => .ok "x ~"
  | _ => .error .notFound

/-- The text with the error, once on the command line besides a file that is missing and with the
    log turned on by the configuration, and once in its file and with the log turned on by the
    switch. -/
theorem run_inlineSource_eq_run_file_logged :
    Starts loggedFiles (["--config", "on"] ++ Options.inlineSource "x ~" :: ["missing"])
        { file? := "missing", eval? := "x ~", config? := "on" } ∧
      Starts loggedFiles ["--log-lexing", "a"] { file? := "a", logLexing := true } ∧
      Output.standard (run loggedFiles ⟨[], false⟩
          (["--config", "on"] ++ Options.inlineSource "x ~" :: ["missing"])).outputs =
        Output.standard (run loggedFiles ⟨[], false⟩ ["--log-lexing", "a"]).outputs ∧
      (run loggedFiles ⟨[], false⟩
          (["--config", "on"] ++ Options.inlineSource "x ~" :: ["missing"])).status =
        (run loggedFiles ⟨[], false⟩ ["--log-lexing", "a"]).status ∧
      Shows "x ~" false (run loggedFiles ⟨[], false⟩
        (["--config", "on"] ++ Options.inlineSource "x ~" :: ["missing"])) ∧
      Shows "x ~" false (run loggedFiles ⟨[], false⟩ ["--log-lexing", "a"]) := by
  have hstarts : Starts loggedFiles
      (["--config", "on"] ++ Options.inlineSource "x ~" :: ["missing"])
      { file? := "missing", eval? := "x ~", config? := "on" } := by
    refine ⟨by decide +kernel, rfl, fun path hpath => ?_⟩
    obtain rfl := Option.some.inj hpath
    exact ⟨"\x7b\"log_lexing_pass\": 1\x7d", ⟨.enabled⟩, rfl, by decide +kernel⟩
  have hstarts' : Starts loggedFiles ["--log-lexing", "a"] { file? := "a", logLexing := true } :=
    ⟨by decide +kernel, rfl, fun path hpath => by simp at hpath⟩
  exact ⟨hstarts, hstarts', run_inlineSource_eq_run_file ⟨[], false⟩ ⟨[], false⟩ (by decide)
    hstarts hstarts' rfl rfl rfl rfl⟩

end Lexis.Cli
