import Lexis.Proofs.Session

set_option autoImplicit false

/-! # What a session reports

A text that cannot be lexed is reported once, with all of its errors. In a session this goes for
each entry that is no command, with one exception: an entry is passed over if all of it is white
space, and in source text only four characters of that are blank. So an entry such as an
ideographic space is in error, but not reported; `reports_step_iff` says that these are all. -/

namespace Lexis

/-! ## Failures -/

/-- A text can be lexed exactly if a scan of it finds no errors. -/
theorem lexNamed_eq (name source : String) :
    lexNamed name source =
      if (scan source).errors = [] then .ok (scan source).tokens
      else .error ⟨name, source, (scan source).errors⟩ := by
  simp only [lexNamed, Scanner.hadError_scan_iff, ite_not]
  rfl

theorem exists_failure_iff (name source : String) :
    (∃ failure, lexNamed name source = .error failure) ↔ ¬ (scan source).errors = [] := by
  rw [lexNamed_eq]
  split
  · next hnone => simp [hnone]
  · next hsome => simp [hsome]

namespace Repl

/-! ## Replies -/

/-- What is shown for a text has one report if the text cannot be lexed, and else none. -/
theorem reports_showScan (scanner : Scanner) (name source : String) :
    Output.reports (showScan scanner name source).2 =
      if (Lexis.scan source).errors = [] then []
      else [⟨name, source, (Lexis.scan source).errors⟩] := by
  rw [Output.reports, filterMap_showScan fun _ => rfl]
  have hlines : (Lexis.scan source).tokens.filterMap
      (fun t => Output.report? (.line t.listed)) = [] :=
    List.filterMap_eq_nil_iff.2 fun _ _ => rfl
  rw [hlines]
  rfl

/-- The reply to an entry that is no command reports its errors, unless it is white space. -/
theorem IsSnippet.reports_reply {text : List Char} (h : IsSnippet text) (read : Reading)
    (scanner : Scanner) :
    Output.reports (reply read scanner (.ofEntry text)).2 =
      if Text.trim text = [] ∨ (Lexis.scan (String.ofList text)).errors = [] then []
      else [⟨"<repl>", String.ofList text, (Lexis.scan (String.ofList text)).errors⟩] := by
  rw [h.ofEntry_eq]
  by_cases hblank : Text.trim text = []
  · rw [if_pos hblank, if_pos (.inl hblank)]
    rfl
  · have hreports := reports_showScan scanner "<repl>" (String.ofList text)
    rw [if_neg hblank]
    refine hreports.trans ?_
    simp only [hblank, false_or]

/-! ## Sessions -/

namespace Session

/-- A line that completes an entry that is no command is shown with one report at most, and that is
    the failure to lex the entry. Whether there is one says whether the entry can be lexed, but for
    an entry of white space with a character that is not blank. Entries of white space are passed
    over, and they have no tokens. -/
theorem reports_step_iff (read : Reading) (s : Session) (line : Line) {text : List Char}
    (hadd : addLine s.opened line = .complete text) (h : IsSnippet text) :
    ∃ s' outputs, s.step read line = .next s' outputs ∧
      (Output.reports outputs = [] ∨
        ∃ failure, lex (String.ofList text) = .error failure ∧
          Output.reports outputs = [{ failure with name := "<repl>" }]) ∧
      (((Output.reports outputs).length = 1 ↔
          ∃ failure, lex (String.ofList text) = .error failure) ↔
        (Text.trim text = [] → ∀ c ∈ text, Text.isBlank c = true)) ∧
      (Text.trim text = [] → outputs = [] ∧ (Lexis.scan (String.ofList text)).tokens = []) := by
  have hstep := step_of_complete hadd (h.line?_reply read s.scanner).1 read
  have hreports := h.reports_reply read s.scanner
  refine ⟨_, _, hstep, ?_, ?_, fun hblank => ⟨?_, ?_⟩⟩
  · rw [hreports, lex, lexNamed_eq]
    split
    · exact .inl rfl
    · next hsome =>
        rw [not_or] at hsome
        exact .inr ⟨_, if_neg hsome.2, rfl⟩
  · rw [hreports, lex, exists_failure_iff]
    by_cases hblank : Text.trim text = []
    · have hspace := Text.isWhiteSpace_of_trim_eq_nil hblank
      rw [← Text.errors_scan_eq_nil_iff_of_isWhiteSpace hspace]
      simp [hblank]
    · by_cases hnone : (Lexis.scan (String.ofList text)).errors = []
      · simp [hblank, hnone]
      · simp [hblank, hnone]
  · rw [h.ofEntry_eq, if_pos hblank]
    rfl
  · exact Text.tokens_scan_eq_nil_of_isWhiteSpace (Text.isWhiteSpace_of_trim_eq_nil hblank)

/-- An entry of two lines with two errors, one of them inside a string. -/
theorem reports_step_iff_two_lines :
    addLine "\"a\n".toList ⟨"\\q\"~".toList, .lf⟩ = .complete "\"a\n\\q\"~".toList ∧
      IsSnippet "\"a\n\\q\"~".toList ∧
      ∃ s' outputs,
        step (fun _ => .error .notFound) ⟨{}, "\"a\n".toList⟩ ⟨"\\q\"~".toList, .lf⟩ =
            .next s' outputs ∧
          (Output.reports outputs).length = 1 := by
  have hadd : addLine "\"a\n".toList ⟨"\\q\"~".toList, .lf⟩ =
      .complete "\"a\n\\q\"~".toList := by decide +kernel
  have hsnippet : IsSnippet "\"a\n\\q\"~".toList := by decide
  obtain ⟨s', outputs, hstep, -, hcount, -⟩ :=
    reports_step_iff (fun _ => .error .notFound) ⟨{}, "\"a\n".toList⟩ _ hadd hsnippet
  have htrim : ¬ Text.trim "\"a\n\\q\"~".toList = [] := by decide
  have hfails : ¬ (Lexis.scan "\"a\n\\q\"~").errors = [] := by decide +kernel
  refine ⟨hadd, hsnippet, s', outputs, hstep, ?_⟩
  exact (hcount.2 fun hblank => absurd hblank htrim).2 ((exists_failure_iff _ _).2 hfails)

/-- An ideographic space is passed over, though it cannot be lexed. -/
theorem reports_step_ideographic_space :
    addLine [] ⟨['\u3000'], .lf⟩ = .complete ['\u3000'] ∧ IsSnippet ['\u3000'] ∧
      step (fun _ => .error .notFound) ⟨{}, []⟩ ⟨['\u3000'], .lf⟩ = .next ⟨{}, []⟩ [] ∧
      lex "\u3000" =
        .error ⟨"<input>", "\u3000", [⟨.unexpectedCharacter '\u3000', .origin, 3⟩]⟩ := by
  have hadd : addLine [] ⟨['\u3000'], .lf⟩ = .complete ['\u3000'] := by decide +kernel
  have hsnippet : IsSnippet ['\u3000'] := by decide
  refine ⟨hadd, hsnippet, ?_, ?_⟩
  · simp only [step, hadd]
    rfl
  · decide +kernel

end Session

end Repl

end Lexis
