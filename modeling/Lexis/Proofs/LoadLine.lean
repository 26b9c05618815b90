import Lexis.Proofs.Session
import Lexis.Proofs.OpenText

set_option autoImplicit false

/-! # Lines that load a file

Whether a line completes an entry is decided before it is known to be a command, by its text alone.
So the path of a file to load is read as source text would be: the line is handled by itself exactly
if the path does not stop inside a string or a block comment (`step_load_iff`). Else the lines that
follow are added to it. -/

namespace Lexis

/-! ## Trimmed texts -/

namespace Text

/-- A text that has no white space at its ends. -/
structure IsTrimmed (text : List Char) : Prop where
  head : ∀ c ∈ text.head?, isWhiteSpace c = false
  last : ∀ c ∈ text.getLast?, isWhiteSpace c = false

/-- White space around a trimmed text is taken away. -/
theorem IsTrimmed.trim_append {front text back : List Char} (h : IsTrimmed text) (hne : text ≠ [])
    (hfront : ∀ c ∈ front, isWhiteSpace c = true) (hback : ∀ c ∈ back, isWhiteSpace c = true) :
    trim (front ++ (text ++ back)) = text := by
  have hstart : trimStart (front ++ (text ++ back)) = text ++ back := by
    obtain ⟨d, tail, rfl⟩ := List.exists_cons_of_ne_nil hne
    exact dropWhile_run hfront h.head
  have hend : (text ++ back).reverse.dropWhile isWhiteSpace = text.reverse := by
    rw [List.reverse_append]
    refine dropWhile_run (fun c hc => hback c (List.mem_reverse.1 hc)) fun c hc => h.last c ?_
    rwa [List.head?_reverse] at hc
  rw [trim, hstart, trimEnd, hend, List.reverse_reverse]

theorem trimEnd_append_takeWhile (cs : List Char) :
    trimEnd cs ++ (cs.reverse.takeWhile isWhiteSpace).reverse = cs := by
  rw [trimEnd, ← List.reverse_append, List.takeWhile_append_dropWhile, List.reverse_reverse]

theorem isTrimmed_trim (cs : List Char) : IsTrimmed (trim cs) where
  head c hc := by
    -- the trimmed text starts as the text without white space in front does
    have hstart : (trimStart cs).head? = some c := by
      rw [← trimEnd_append_takeWhile (trimStart cs), ← trim, List.head?_append, hc, Option.some_or]
    have hnot := List.head?_dropWhile_not isWhiteSpace cs
    rw [← trimStart, hstart] at hnot
    exact hnot
  last c hc := by
    have hnot := List.head?_dropWhile_not isWhiteSpace (trimStart cs).reverse
    rw [trim, trimEnd, List.getLast?_reverse] at hc
    rw [hc] at hnot
    exact hnot

/-- What trimming takes away is white space. -/
theorem exists_trim (cs : List Char) :
    ∃ front back, cs = front ++ (trim cs ++ back) ∧ (∀ c ∈ front, isWhiteSpace c = true) ∧
      ∀ c ∈ back, isWhiteSpace c = true := by
  refine ⟨cs.takeWhile isWhiteSpace, ((trimStart cs).reverse.takeWhile isWhiteSpace).reverse, ?_,
    fun c hc => List.mem_takeWhile_imp hc,
    fun c hc => List.mem_takeWhile_imp (List.mem_reverse.1 hc)⟩
  rw [trim, trimEnd_append_takeWhile]
  exact List.takeWhile_append_dropWhile.symm

end Text

namespace Repl

/-! ## Commands to load a file -/

theorem loadWord_eq : loadWord = ['.', 'l', 'o', 'a', 'd', ' '] := rfl

/-- The line that asks to load the file at a path. -/
def loadLine (path : List Char) (ending : LineEnd) : Line := ⟨loadWord ++ path, ending⟩

/-- The word and the path behind it are trimmed together, which leaves some of the white space
    between them. -/
theorem trim_loadWord_append {path : List Char} (h : Text.trim path ≠ []) :
    ∃ name, Text.trim (loadWord ++ path) = loadWord ++ name ∧
      Text.trim name = Text.trim path := by
  obtain ⟨front, back, hpath, hfront, hback⟩ := Text.exists_trim path
  have htrimmed := Text.isTrimmed_trim path
  generalize Text.trim path = name at h hpath htrimmed ⊢
  refine ⟨front ++ name, ?_, ?_⟩
  · have hcommand : Text.IsTrimmed (loadWord ++ (front ++ name)) := by
      refine ⟨by simp [loadWord_eq]; decide, ?_⟩
      rw [← List.append_assoc, List.getLast?_append, List.getLast?_eq_some_getLast h,
        Option.some_or, ← List.getLast?_eq_some_getLast h]
      exact htrimmed.last
    have htrim : Text.trim ([] ++ (loadWord ++ (front ++ name) ++ back)) =
        loadWord ++ (front ++ name) :=
      hcommand.trim_append (by simp [loadWord_eq]) (by simp) hback
    simpa [hpath] using htrim
  · have htrim : Text.trim (front ++ (name ++ [])) = name :=
      htrimmed.trim_append h hfront (by simp)
    rwa [List.append_nil] at htrim

/-- The path is trimmed once more on its own. -/
theorem Command.ofEntry_load {path : List Char} (h : Text.trim path ≠ []) :
    ofEntry (loadWord ++ path) = .load (String.ofList (Text.trim path)) := by
  obtain ⟨name, htrim, hname⟩ := trim_loadWord_append h
  have hne : ¬ loadWord ++ name = [] := by simp [loadWord_eq]
  have hexit : ¬ loadWord ++ name = ".exit".toList := by simp [loadWord_eq]
  have hhelp : ¬ loadWord ++ name = ".help".toList := by simp [loadWord_eq]
  have hload : loadWord.isPrefixOf (loadWord ++ name) = true := by
    rw [List.isPrefixOf_iff_prefix]
    exact List.prefix_append ..
  simp only [ofEntry, htrim, hne, hexit, hhelp, hload, if_false, if_true, List.drop_left, hname]

/-! ## Sessions -/

namespace Session

theorem addLine_loadLine (path : List Char) (ending : LineEnd) :
    addLine [] (loadLine path ending) =
      if (Mode.code.run path).isOpen then .more (loadLine path ending).raw
      else .complete (loadWord ++ path) := by
  have hmodes := Mode.isOpen_run_textOf (Segment.row_readAll (loadWord ++ path))
  rw [Segment.textOf_readAll, Mode.run_append] at hmodes
  have hword : Mode.code.run loadWord = .code := by decide
  rw [hword] at hmodes
  have hmore : needsMoreInput (String.ofList (loadWord ++ path)) = (Mode.code.run path).isOpen := by
    rw [needsMoreInput_eq, String.toList_ofList, hmodes]
  simp only [addLine, loadLine, List.nil_append, hmore]
  rfl

theorem isLines_loadLine {path : List Char} (h : '\n' ∉ path ∧ '\r' ∉ path) (ending : LineEnd) :
    Line.IsLines [loadLine path ending] where
  not_newline line hline := by
    rw [List.mem_singleton.1 hline]
    simp [loadLine, loadWord_eq, h.1]
  not_return line hline _ hlast := by
    rw [List.mem_singleton.1 hline] at hlast
    have hmem := List.mem_of_getLast? hlast
    simp [loadLine, loadWord_eq, h.2] at hmem
  raw_ne_nil line hline := by
    rw [List.mem_singleton.1 hline]
    simp [Line.raw, loadLine, loadWord_eq]
  pairwise := List.pairwise_singleton ..

/-- A session that reads a line that asks to load a file, with no entry open, does so before it
    reads on exactly if the path does not stop inside a string or a block comment. Else it keeps the
    line, with its end, for the lines that follow. -/
theorem step_load_iff (read : Reading) (scanner : Scanner) {path : List Char}
    (hpath : Text.trim path ≠ []) (hbreak : '\n' ∉ path ∧ '\r' ∉ path) (ending : LineEnd)
    (rest : ByteArray) (hend : ending = .none → rest = .empty) :
    Input.ofBytes ((String.ofList (loadLine path ending).raw).toUTF8 ++ rest) =
        { Input.ofBytes rest with
          lines := loadLine path ending :: (Input.ofBytes rest).lines } ∧
      (step read ⟨scanner, []⟩ (loadLine path ending) =
          .next ⟨(reply read scanner (.load (String.ofList (Text.trim path)))).1, []⟩
            (reply read scanner (.load (String.ofList (Text.trim path)))).2 ↔
        (Mode.code.run path).isOpen = false) ∧
      ((Mode.code.run path).isOpen = true →
        step read ⟨scanner, []⟩ (loadLine path ending) =
          .next ⟨scanner, (loadLine path ending).raw⟩ []) := by
  have hcommand := Command.ofEntry_load hpath
  have hadd := addLine_loadLine path ending
  have hopen (hmode : (Mode.code.run path).isOpen = true) :
      step read ⟨scanner, []⟩ (loadLine path ending) =
        .next ⟨scanner, (loadLine path ending).raw⟩ [] := by
    rw [if_pos hmode] at hadd
    exact step_of_more (s := ⟨scanner, []⟩) hadd read
  refine ⟨Input.ofBytes_append (isLines_loadLine hbreak ending) hend, ?_, hopen⟩
  cases hmode : (Mode.code.run path).isOpen with
  | true =>
      -- a line that is kept has text
      have hraw := (isLines_loadLine hbreak ending).raw_ne_nil _ List.mem_cons_self
      rw [hopen hmode]
      simp [hraw]
  | false =>
      rw [if_neg (by simp [hmode])] at hadd
      have hstep := step_of_complete (s := ⟨scanner, []⟩) hadd (by simp [hcommand]) read
      rw [hcommand] at hstep
      simp [hstep]

/-- A path with a comment, in which neither the quote nor the slash and star count. -/
theorem step_load_iff_comment :
    Text.trim " a//\"/*\u3000".toList ≠ [] ∧
      ('\n' ∉ " a//\"/*\u3000".toList ∧ '\r' ∉ " a//\"/*\u3000".toList) ∧
      step (fun _ => .error .notFound) ⟨{}, []⟩ (loadLine " a//\"/*\u3000".toList .crlf) =
        .next ⟨{}, []⟩ [.problem "load error" ReadError.notFound.message] := by
  have hpath : Text.trim " a//\"/*\u3000".toList ≠ [] := by decide
  have hbreak : '\n' ∉ " a//\"/*\u3000".toList ∧ '\r' ∉ " a//\"/*\u3000".toList := by decide
  obtain ⟨-, hload, -⟩ := step_load_iff (fun _ => .error .notFound) {} hpath hbreak .crlf
    .empty (fun _ => rfl)
  exact ⟨hpath, hbreak, hload.2 (by decide)⟩

/-- A line that asks for a file is kept because of a quote in the path, and takes in the next
    line. -/
theorem step_load_quote :
    Text.trim "\"x".toList ≠ [] ∧ ('\n' ∉ "\"x".toList ∧ '\r' ∉ "\"x".toList) ∧
      (reply (fun _ => .error .notFound) {} (.load "\"x")).2 =
        [.problem "load error" ReadError.notFound.message] ∧
      step (fun _ => .error .notFound) ⟨{}, []⟩ (loadLine "\"x".toList .lf) =
        .next ⟨{}, ".load \"x\n".toList⟩ [] ∧
      runLines (fun _ => .error .notFound) false ⟨{}, []⟩
          [loadLine "\"x".toList .lf, ⟨"1".toList, .lf⟩] = ⟨[farewell], 0⟩ := by
  refine ⟨by decide, by decide, rfl, ?_, ?_⟩
  · decide +kernel
  · decide +kernel

end Session

end Repl

end Lexis
