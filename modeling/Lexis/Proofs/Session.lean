import Lexis.Proofs.Content
import Lexis.Proofs.Input
import Lexis.Repl.Session

set_option autoImplicit false

/-! # Sessions and scans

A session scans entry by entry what could have been scanned at once. Entries are cut where a text
needs no more input, so each is scanned alone as it is with the others, and the ends of lines that
are dropped between them have no part in tokens. `line?_run` says so of all that a session prints
for a text without commands. -/

namespace Lexis.Repl

/-! ## Entries -/

theorem addLine_cases (opened : List Char) (line : Line) :
    (addLine opened line = .complete (opened ++ line.text) ∧
        needsMoreInput (String.ofList (opened ++ line.text)) = false) ∨
      addLine opened line = .more (opened ++ line.raw) := by
  unfold addLine Line.raw
  cases hmore : needsMoreInput (String.ofList (opened ++ line.text)) with
  | false => exact .inl ⟨by simp only [hmore, Bool.false_eq_true, if_false], rfl⟩
  | true => exact .inr (by simp only [hmore, if_true, List.append_assoc])

/-- The complete entries are what was read, up to the one that is lost. -/
theorem exists_lost (opened : List Char) (lines : List Line) :
    ∃ lost, opened ++ lines.flatMap Line.raw =
      (entriesFrom opened lines).flatMap Entry.raw ++ lost := by
  induction lines generalizing opened with
  | nil => exact ⟨opened, List.append_nil _⟩
  | cons line lines ih =>
      rcases addLine_cases opened line with ⟨hadd, -⟩ | hadd
      · obtain ⟨lost, hlost⟩ := ih []
        refine ⟨lost, ?_⟩
        rw [entriesFrom, hadd]
        simp_all [Entry.raw, Line.raw]
      · obtain ⟨lost, hlost⟩ := ih (opened ++ line.raw)
        refine ⟨lost, ?_⟩
        rw [entriesFrom, hadd]
        simpa using hlost

theorem needsMoreInput_of_mem_entriesFrom {opened : List Char} {lines : List Line} {e : Entry}
    (h : e ∈ entriesFrom opened lines) : needsMoreInput (String.ofList e.text) = false := by
  induction lines generalizing opened with
  | nil => simp [entriesFrom] at h
  | cons line lines ih =>
      rcases addLine_cases opened line with ⟨hadd, hmore⟩ | hadd
      · rw [entriesFrom, hadd] at h
        rcases List.mem_cons.1 h with rfl | h
        · exact hmore
        · exact ih h
      · rw [entriesFrom, hadd] at h
        exact ih h

/-- An entry that has another one behind it has an end, if that is so of lines. -/
theorem pairwise_entriesFrom {lines : List Line}
    (h : lines.Pairwise fun line _ => line.ending ≠ .none) (opened : List Char) :
    (entriesFrom opened lines).Pairwise fun e _ => e.ending ≠ .none := by
  induction lines generalizing opened with
  | nil => exact List.Pairwise.nil
  | cons line lines ih =>
      obtain ⟨hline, hlines⟩ := List.pairwise_cons.1 h
      rcases addLine_cases opened line with ⟨hadd, -⟩ | hadd
      · rw [entriesFrom, hadd]
        refine List.pairwise_cons.2 ⟨fun e he => ?_, ih hlines []⟩
        cases lines with
        | nil => simp [entriesFrom] at he
        | cons line' lines => exact hline line' List.mem_cons_self
      · rw [entriesFrom, hadd]
        exact ih hlines _

/-! ## Tokens of entries -/

/-- The tokens of an entry. -/
def Entry.tokens (e : Entry) : List Token := (Lexis.scan (String.ofList e.text)).tokens

theorem Entry.map_content_tokens (e : Entry) :
    e.tokens.map Token.content = Text.contents e.text := by
  rw [tokens, map_content_tokens_scan, String.toList_ofList]

theorem contents_append_ending {cs : List Char} {ending : LineEnd}
    (h : (Segment.readAll cs).any Segment.isOpen = false) (hending : ending ≠ .none)
    (rest : List Char) :
    Text.contents (cs ++ ending.text ++ rest) = Text.contents cs ++ Text.contents rest := by
  cases ending with
  | none => exact absurd rfl hending
  | lf =>
      have hcontents := Text.contents_append_newline h rest
      simpa [LineEnd.text] using hcontents
  | crlf =>
      obtain ⟨hreturn, hcontents⟩ := Text.contents_append_return h
      have hnewline := Text.contents_append_newline hreturn rest
      rw [hcontents] at hnewline
      simpa [LineEnd.text] using hnewline

/-- Entries are scanned one by one as they are together, with the ends of their lines. -/
theorem contents_flatMap_raw {entries : List Entry}
    (hcomplete : ∀ e ∈ entries, needsMoreInput (String.ofList e.text) = false)
    (hends : entries.Pairwise fun e _ => e.ending ≠ .none) :
    Text.contents (entries.flatMap Entry.raw) =
      (entries.flatMap Entry.tokens).map Token.content := by
  induction entries with
  | nil => exact Text.contents_nil
  | cons e entries ih =>
      obtain ⟨hend, hends⟩ := List.pairwise_cons.1 hends
      have hrest := ih (fun e' he' => hcomplete e' (List.mem_cons_of_mem _ he')) hends
      have hclosed := hcomplete e List.mem_cons_self
      rw [needsMoreInput_eq, String.toList_ofList] at hclosed
      rw [List.flatMap_cons, List.flatMap_cons, List.map_append, ← hrest, e.map_content_tokens,
        Entry.raw]
      by_cases hnone : e.ending = .none
      · -- nothing is behind an entry without an end
        have hlast : entries = [] := by
          refine List.eq_nil_iff_forall_not_mem.2 fun e' he' => ?_
          exact hend e' he' hnone
        simp [hnone, hlast, LineEnd.text]
      · exact contents_append_ending hclosed hnone _

/-! ## Replies -/

/-- An entry that is no command. -/
structure IsSnippet (text : List Char) : Prop where
  not_exit : Text.trim text ≠ ".exit".toList
  not_help : Text.trim text ≠ ".help".toList
  not_load : ¬ loadWord <+: Text.trim text

theorem isSnippet_iff {text : List Char} :
    IsSnippet text ↔ Text.trim text ≠ ".exit".toList ∧ Text.trim text ≠ ".help".toList ∧
      ¬ loadWord <+: Text.trim text :=
  ⟨fun h => ⟨h.not_exit, h.not_help, h.not_load⟩, fun h => ⟨h.1, h.2.1, h.2.2⟩⟩

instance : DecidablePred IsSnippet := fun _ => decidable_of_iff' _ isSnippet_iff

/-- A part of what is shown for a text that is not the log: some of its tokens, each on a line of
    its own, and of the report, if there are errors. -/
theorem filterMap_showScan {α : Type} {part? : Output → Option α}
    (hlog : ∀ event, part? (.log event) = none) (scanner : Scanner) (name source : String) :
    (showScan scanner name source).2.filterMap part? =
      (Lexis.scan source).tokens.filterMap (fun t => part? (.line t.listed)) ++
        if (Lexis.scan source).errors = [] then []
        else (part? (.report ⟨name, source, (Lexis.scan source).errors⟩)).toList := by
  have hevents (events : List Event) : (events.map Output.log).filterMap part? = [] := by
    rw [List.filterMap_map]
    exact List.filterMap_eq_nil_iff.2 fun event _ => hlog event
  simp only [showScan, List.filterMap_append, hevents, List.nil_append, List.filterMap_map,
    Scanner.hadError_scan_iff, ite_not]
  split
  · rfl
  · rfl

theorem line?_showScan (scanner : Scanner) (name source : String) :
    (showScan scanner name source).2.filterMap Output.line? =
      (Lexis.scan source).tokens.map Token.listed := by
  rw [filterMap_showScan fun _ => rfl]
  have hlines : (Lexis.scan source).tokens.filterMap (fun t => Output.line? (.line t.listed)) =
      (Lexis.scan source).tokens.map Token.listed := congrFun List.filterMap_eq_map _
  rw [hlines]
  split
  · exact List.append_nil _
  · exact List.append_nil _

/-- An entry that is no command asks for nothing if it is white space, and else for a scan. -/
theorem IsSnippet.ofEntry_eq {text : List Char} (h : IsSnippet text) :
    Command.ofEntry text =
      if Text.trim text = [] then .nothing else .scan (String.ofList text) := by
  have hload : ¬ loadWord.isPrefixOf (Text.trim text) = true := by
    rw [List.isPrefixOf_iff_prefix]
    exact h.not_load
  simp only [Command.ofEntry, if_neg h.not_exit, if_neg h.not_help, if_neg hload]

/-- The reply to an entry that is no command lists its tokens. -/
theorem IsSnippet.line?_reply {text : List Char} (h : IsSnippet text) (read : Reading)
    (scanner : Scanner) :
    Command.ofEntry text ≠ .exit ∧
      (reply read scanner (.ofEntry text)).2.filterMap Output.line? =
        (Lexis.scan (String.ofList text)).tokens.map Token.listed := by
  rw [h.ofEntry_eq]
  by_cases hblank : Text.trim text = []
  · rw [if_pos hblank,
      Text.tokens_scan_eq_nil_of_isWhiteSpace (Text.isWhiteSpace_of_trim_eq_nil hblank)]
    exact ⟨by simp, rfl⟩
  · rw [if_neg hblank]
    exact ⟨by simp, line?_showScan scanner "<repl>" (String.ofList text)⟩

/-! ## Sessions -/

namespace Session

theorem step_of_complete {s : Session} {line : Line} {text : List Char}
    (hadd : addLine s.opened line = .complete text) (hexit : Command.ofEntry text ≠ .exit)
    (read : Reading) :
    s.step read line =
      .next ⟨(reply read s.scanner (.ofEntry text)).1, []⟩
        (reply read s.scanner (.ofEntry text)).2 := by
  simp only [step, hadd]

theorem step_of_more {s : Session} {line : Line} {opened : List Char}
    (hadd : addLine s.opened line = .more opened) (read : Reading) :
    s.step read line = .next { s with opened := opened } [] := by
  simp only [step, hadd]

/-- A session that ends with its input prints the tokens of its entries. -/
theorem line?_runLines (read : Reading) (isGarbled : Bool) (s : Session) (lines : List Line)
    (h : ∀ e ∈ entriesFrom s.opened lines, IsSnippet e.text) :
    (s.runLines read isGarbled lines).outputs.filterMap Output.line? =
      ((entriesFrom s.opened lines).flatMap Entry.tokens).map Token.listed ++
        (finish isGarbled).outputs.filterMap Output.line? := by
  induction lines generalizing s with
  | nil => rfl
  | cons line lines ih =>
      rcases addLine_cases s.opened line with ⟨hadd, -⟩ | hadd
      · rw [entriesFrom, hadd] at h ⊢
        have hsnippet := h _ List.mem_cons_self
        obtain ⟨hexit, hreply⟩ := hsnippet.line?_reply read s.scanner
        have hrest := ih ⟨(reply read s.scanner (.ofEntry (s.opened ++ line.text))).1, []⟩
          fun e he => h e (List.mem_cons_of_mem _ he)
        rw [runLines, step_of_complete hadd hexit]
        simp only [List.filterMap_append, hreply, hrest]
        rw [List.flatMap_cons, List.map_append, List.append_assoc]
        rfl
      · rw [entriesFrom, hadd] at h ⊢
        rw [runLines, step_of_more hadd]
        exact ih _ h

end Session

/-- A session on a text without commands prints the tokens of its entries, and apart from their
    places these are the tokens of one scan of the entries together, with the ends of their lines;
    that is the text but for an entry that is open at its end. -/
theorem line?_run (read : Reading) (config : ScanConfig) (text : String)
    (h : ∀ e ∈ entriesOf text, IsSnippet e.text) :
    (run read config (.ofBytes text.toUTF8)).outputs.filterMap Output.line? =
        banner.filterMap Output.line? ++
          ((entriesOf text).flatMap Entry.tokens).map Token.listed ++
          [farewell].filterMap Output.line? ∧
      ((entriesOf text).flatMap Entry.tokens).map Token.content =
        (Lexis.scan (String.ofList ((entriesOf text).flatMap Entry.raw))).tokens.map
          Token.content ∧
      ∃ lost, text.toList = (entriesOf text).flatMap Entry.raw ++ lost := by
  refine ⟨?_, ?_, ?_⟩
  · have hlines := Session.line?_runLines read false ⟨.ofConfig config, []⟩ _ h
    rw [Input.ofBytes_toUTF8, run, List.filterMap_append, List.append_assoc]
    exact congrArg _ hlines
  · rw [map_content_tokens_scan, String.toList_ofList]
    refine (contents_flatMap_raw (fun e he => needsMoreInput_of_mem_entriesFrom he) ?_).symm
    exact pairwise_entriesFrom (Line.pairwise_split text.toList) []
  · obtain ⟨lost, hlost⟩ := exists_lost [] (Line.split text.toList)
    rw [List.nil_append, Line.flatMap_raw_split] at hlost
    exact ⟨lost, hlost⟩

/-- An entry that ends in a comment, one with a string over two lines, one that is white space, and
    a comment that is lost. -/
theorem line?_run_lost_comment :
    (∀ e ∈ entriesOf "1//\r\n\"\r\n\"\n\u00a0\n/*", IsSnippet e.text) ∧
      (run (fun _ => .error .notFound) {}
            (.ofBytes "1//\r\n\"\r\n\"\n\u00a0\n/*".toUTF8)).outputs.filterMap Output.line? =
        banner.filterMap Output.line? ++
          ((entriesOf "1//\r\n\"\r\n\"\n\u00a0\n/*").flatMap Entry.tokens).map Token.listed ++
          [farewell].filterMap Output.line? ∧
      ((entriesOf "1//\r\n\"\r\n\"\n\u00a0\n/*").flatMap Entry.tokens).map Token.content =
        (Lexis.scan "1//\r\n\"\r\n\"\n\u00a0\n").tokens.map Token.content := by
  have hentries : entriesOf "1//\r\n\"\r\n\"\n\u00a0\n/*" =
      [⟨"1//".toList, .crlf⟩, ⟨"\"\r\n\"".toList, .lf⟩, ⟨"\u00a0".toList, .lf⟩] := by
    decide +kernel
  have hsnippets : ∀ e ∈ entriesOf "1//\r\n\"\r\n\"\n\u00a0\n/*", IsSnippet e.text := by
    rw [hentries]
    decide
  have hrun := line?_run (fun _ => .error .notFound) {} "1//\r\n\"\r\n\"\n\u00a0\n/*" hsnippets
  have htogether : String.ofList ((entriesOf "1//\r\n\"\r\n\"\n\u00a0\n/*").flatMap Entry.raw) =
      "1//\r\n\"\r\n\"\n\u00a0\n" := by
    rw [hentries]
    decide
  rw [htogether] at hrun
  exact ⟨hsnippets, hrun.1, hrun.2.1⟩

end Lexis.Repl
