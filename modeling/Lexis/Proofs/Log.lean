import Lexis.Proofs.Cut
import Mathlib.Data.List.Basic

set_option autoImplicit false

/-! # The log of a scan

A scan can write a log of what it finds, and finds the same whether it does or not. The log has the
tokens and errors of the scan, each in their order, and the totals behind them
(`Event.IsLogOf`). How the two orders are merged can be told from the result alone: what is logged
before a token are the errors that start before the token stops. Those are the errors of the text
up to there, escapes inside the token included; all other errors are behind it
(`Trace.filter_errors_cut`). -/

namespace Lexis

/-- A log that has all of some tokens and errors, and nothing else. Before a token it has the errors
    that start before the token stops. -/
structure Event.IsLogOf (tokens : List Token) (errors : List LexError) (log : List Event) :
    Prop where
  tokens_eq : log.filter (·.level = "DEBUG") = tokens.map .token
  errors_eq : log.filter (·.level = "WARN") = errors.map .error
  /-- A token is written with its kind, lexeme, line and column. -/
  tokens_fields : (log.filter (·.level = "DEBUG")).map fields = tokens.map fun t =>
    [("message", "token"), ("kind", t.kind.name), ("lexeme", t.lexeme),
     ("line", toString t.start.line), ("column", toString t.start.column)]
  /-- An error is written with its message. -/
  errors_fields : (log.filter (·.level = "WARN")).map fields =
    errors.map fun e => [("message", e.message)]
  level_eq : ∀ e ∈ log, e.level = "DEBUG" ∨ e.level = "WARN"
  errors_before : ∀ before t behind, log = before ++ .token t :: behind →
    before.filter (·.level = "WARN") = (errors.filter (·.span.start < t.span.stop)).map .error

/-! ## Events of a segment -/

section

variable (errors : List LexError)

theorem filter_token_errors : (errors.map Event.error).filter (·.level = "DEBUG") = [] := by
  rw [List.filter_map, List.filter_eq_nil_iff.2]
  · rfl
  · intro e _
    exact of_decide_eq_true rfl

theorem filter_error_errors :
    (errors.map Event.error).filter (·.level = "WARN") = errors.map .error := by
  rw [List.filter_map, List.filter_eq_self.2]
  intro e _
  rfl

end

namespace Placed

theorem filter_token_events (p : Placed Segment) :
    p.events.filter (·.level = "DEBUG") = p.token?.toList.map .token := by
  rw [events, List.filter_append, filter_token_errors]
  cases p.token? <;> rfl

theorem filter_error_events (p : Placed Segment) :
    p.events.filter (·.level = "WARN") = p.errors.map .error := by
  rw [events, List.filter_append, filter_error_errors]
  cases p.token? <;> exact List.append_nil _

/-- The token of a segment is logged behind the errors of the segment. -/
theorem eq_of_events_eq {p : Placed Segment} {before behind : List Event} {t : Token}
    (h : p.events = before ++ .token t :: behind) :
    p.token? = some t ∧ before = p.errors.map .error := by
  have hnot : Event.token t ∉ p.errors.map Event.error := by simp
  rw [events] at h
  cases htoken : p.token? with
  | none =>
      rw [htoken, Option.map_none, Option.toList_none, List.append_nil] at h
      exact absurd (h ▸ List.mem_append_right _ List.mem_cons_self) hnot
  | some u =>
      rw [htoken] at h
      obtain ⟨rfl, hu, -⟩ := (List.append_cons_inj_of_notMem hnot List.not_mem_nil).1 h
      obtain rfl := Event.token.inj hu
      exact ⟨rfl, rfl⟩

end Placed

/-! ## Events of a trace -/

/-- A member of two lists in a row is one of the first list, or of the second. -/
theorem mem_of_append_eq {α : Type} {as bs before behind : List α} {a : α}
    (h : as ++ bs = before ++ a :: behind) :
    (∃ inside, as = before ++ a :: inside) ∨
      ∃ before', before = as ++ before' ∧ bs = before' ++ a :: behind := by
  rcases List.append_eq_append_iff.1 h with ⟨before', hbefore, hbs⟩ | ⟨inside, has, hinside⟩
  · exact .inr ⟨before', hbefore, hbs⟩
  · cases inside with
    | nil => exact .inr ⟨[], by rw [has, List.append_nil, List.append_nil], hinside.symm⟩
    | cons b inside =>
        obtain ⟨rfl, -⟩ := List.cons.inj hinside
        exact .inl ⟨inside, has⟩

namespace Trace

theorem filter_token_events (t : Trace) :
    (t.flatMap Placed.events).filter (·.level = "DEBUG") = t.tokens.map .token := by
  rw [tokens, List.filterMap_eq_flatMap_toList, List.filter_flatMap, List.map_flatMap]
  simp only [Placed.filter_token_events]

theorem filter_error_events (t : Trace) :
    (t.flatMap Placed.events).filter (·.level = "WARN") = t.errors.map .error := by
  rw [errors, List.filter_flatMap, List.map_flatMap]
  simp only [Placed.filter_error_events]

/-- Behind the segment of a token that is logged the trace can be cut. -/
theorem exists_of_events_eq {trace : Trace} {before behind : List Event} {t : Token}
    (h : trace.flatMap Placed.events = before ++ .token t :: behind) :
    ∃ early p late, trace = early ++ [p] ++ late ∧ p.token? = some t ∧
      before = early.flatMap Placed.events ++ p.errors.map .error := by
  induction trace generalizing before with
  | nil => simp at h
  | cons p trace ih =>
      rw [List.flatMap_cons] at h
      rcases mem_of_append_eq h with ⟨inside, hp⟩ | ⟨before', rfl, hrest⟩
      · obtain ⟨htoken, rfl⟩ := Placed.eq_of_events_eq hp
        exact ⟨[], p, trace, rfl, htoken, rfl⟩
      · obtain ⟨early, q, late, rfl, htoken, rfl⟩ := ih hrest
        refine ⟨p :: early, q, late, rfl, htoken, ?_⟩
        rw [List.flatMap_cons, List.append_assoc]

/-- What is logged before a token are the errors that start before the token stops. -/
theorem filter_error_of_events_eq {cs : List Char} {before behind : List Event} {t : Token}
    (h : (ofText cs).flatMap Placed.events = before ++ .token t :: behind) :
    before.filter (·.level = "WARN") =
      ((ofText cs).errors.filter (·.span.start < t.span.stop)).map .error := by
  obtain ⟨early, p, late, htrace, htoken, rfl⟩ := exists_of_events_eq h
  obtain ⟨as, bs, rfl, has, rfl⟩ := ofText_of_append htrace
  have hstop := stop_of_ofText_eq_concat has.symm htoken
  have herrors := congrArg errors has
  rw [errors_append, errors_cons] at herrors
  rw [htrace, errors_append, has, hstop, (filter_errors_cut as bs).1, ← herrors,
    List.filter_append, filter_error_events, filter_error_errors, ← List.map_append]
  exact congrArg _ (congrArg _ (List.append_nil _).symm)

theorem isLogOf_events (cs : List Char) :
    Event.IsLogOf (ofText cs).tokens (ofText cs).errors
      ((ofText cs).flatMap Placed.events) where
  tokens_eq := filter_token_events _
  errors_eq := filter_error_events _
  tokens_fields := by
    rw [filter_token_events, List.map_map]
    rfl
  errors_fields := by
    rw [filter_error_events, List.map_map]
    rfl
  level_eq e he := by
    obtain ⟨p, -, he⟩ := List.mem_flatMap.1 he
    rcases List.mem_append.1 he with he | he
    · obtain ⟨error, -, rfl⟩ := List.mem_map.1 he
      exact .inr rfl
    · obtain ⟨token, -, rfl⟩ := Option.map_eq_some_iff.1 (Option.mem_toList.1 he)
      exact .inl rfl
  errors_before _ _ _ h := filter_error_of_events_eq h

end Trace

namespace Scanner

/-- A scan that is logged finds what one that is not logged finds, which has no events. Its log has
    the tokens and errors, and the totals at the end. -/
theorem scan_logged {quiet logged : Scanner} (hquiet : quiet.config.logLexingPass.isEnabled = false)
    (hlogged : logged.config.logLexingPass.isEnabled = true) (source : String) :
    (logged.scan source).2.tokens = (quiet.scan source).2.tokens ∧
      (logged.scan source).1.errors = (quiet.scan source).1.errors ∧
      (quiet.scan source).2.events = [] ∧
      ∃ log last, (logged.scan source).2.events = log ++ [last] ∧
        Event.IsLogOf (logged.scan source).2.tokens (logged.scan source).1.errors log ∧
        last.level = "INFO" ∧
        last.fields = [("message", "lexing pass complete"),
          ("tokens", toString (logged.scan source).2.tokens.length),
          ("errors", toString (logged.scan source).1.errors.length)] := by
  have hnone : (quiet.scan source).2.events = [] := by
    rw [scan, hquiet]
    rfl
  have hevents : (logged.scan source).2.events = (Trace.ofText source.toList).events := by
    rw [scan, hlogged]
    rfl
  rw [hevents]
  exact ⟨rfl, rfl, hnone, _, _, rfl, Trace.isLogOf_events source.toList, rfl, rfl⟩

/-- An escape before its string, a token behind that, and a string without an end. -/
theorem scan_logged_escape :
    (ofConfig ⟨.disabled⟩).config.logLexingPass.isEnabled = false ∧
      (ofConfig ⟨.enabled⟩).config.logLexingPass.isEnabled = true ∧
      ((ofConfig ⟨.enabled⟩).scan "~\"\\q\" x \"").2.events.map Event.level =
        ["WARN", "WARN", "DEBUG", "DEBUG", "WARN", "INFO"] ∧
      ((ofConfig ⟨.enabled⟩).scan "~\"\\q\" x \"").2.tokens =
        ((ofConfig ⟨.disabled⟩).scan "~\"\\q\" x \"").2.tokens ∧
      ∃ log last,
        ((ofConfig ⟨.enabled⟩).scan "~\"\\q\" x \"").2.events = log ++ [last] ∧
        Event.IsLogOf ((ofConfig ⟨.enabled⟩).scan "~\"\\q\" x \"").2.tokens
          ((ofConfig ⟨.enabled⟩).scan "~\"\\q\" x \"").1.errors log := by
  have hlevels : ((ofConfig ⟨.enabled⟩).scan "~\"\\q\" x \"").2.events.map Event.level =
      ["WARN", "WARN", "DEBUG", "DEBUG", "WARN", "INFO"] := by decide +kernel
  obtain ⟨htokens, -, -, log, last, hevents, hlog, -⟩ :=
    @scan_logged (ofConfig ⟨.disabled⟩) (ofConfig ⟨.enabled⟩) rfl rfl "~\"\\q\" x \""
  exact ⟨rfl, rfl, hlevels, htokens, log, last, hevents, hlog⟩

end Scanner

end Lexis
