import Lexis.Proofs.SegmentRow
import Lexis.Proofs.Trace
import Lexis.Repl.Entry

set_option autoImplicit false

/-! # Texts that stop inside a string or a block comment

Whether a text needs more input is decided by a scan of the whole text, but seven modes and one
character at a time are enough (`needsMoreInput_iff_run`). The modes follow the segments of the
text: behind a segment the mode is that of code, or it treats the next character as code does
(`Mode.Settled`), since a segment ends where the next one starts. -/

namespace Lexis

/-! ## Open segments -/

theorem Placed.any_isUnterminated_errors (p : Placed Segment) :
    p.errors.any LexError.isUnterminated = p.piece.isOpen := by
  have hescapes : (escapeErrors p.start p.piece.items).any LexError.isUnterminated = false := by
    rw [List.any_eq_false]
    intro e he
    obtain ⟨sequence, hcause⟩ := cause_of_mem_escapeErrors he
    simp [LexError.isUnterminated, hcause, LexError.Cause.isUnterminated]
  rw [errors, List.any_append, hescapes, Bool.false_or]
  obtain ⟨start, piece⟩ := p
  cases piece with
  | integer digits =>
      simp only [ownError?, Segment.fault?, Segment.isOpen]
      split <;> simp [LexError.isUnterminated, LexError.Cause.isUnterminated]
  | decimal whole fraction =>
      simp only [ownError?, Segment.fault?, Segment.isOpen]
      split <;> simp [LexError.isUnterminated, LexError.Cause.isUnterminated]
  | _ => rfl

theorem Trace.any_isUnterminated_errors (p : Position) (segments : List Segment) :
    (errors (place Segment.text p segments)).any LexError.isUnterminated =
      segments.any Segment.isOpen := by
  induction segments generalizing p with
  | nil => rfl
  | cons s segments ih =>
      rw [place, errors_cons, List.any_append, Placed.any_isUnterminated_errors, ih, List.any_cons]

/-- A text needs more input if one of its segments is open. -/
theorem needsMoreInput_eq (source : String) :
    needsMoreInput source = (Segment.readAll source.toList).any Segment.isOpen :=
  Trace.any_isUnterminated_errors _ _

/-! ## Modes -/

/-- What the next character of a text will be part of. -/
inductive Mode where
  | code
  /-- Behind a slash that may open a comment. -/
  | slash
  | line
  | block
  /-- In a block comment, behind a star that may close it. -/
  | star
  | str
  /-- In a string, behind a backslash. -/
  | esc
deriving DecidableEq, Repr

namespace Mode

/-- The mode behind a character. -/
def step : Mode → Char → Mode
  | code, c => if c = '"' then str else if c = '/' then slash else code
  | slash, c =>
    if c = '/' then line else if c = '*' then block else if c = '"' then str else code
  | line, c => if c = '\n' then code else line
  | block, c => if c = '*' then star else block
  | star, c => if c = '/' then code else if c = '*' then star else block
  | str, c => if c = '"' then code else if c = '\\' then esc else str
  | esc, _ => str

/-- The mode behind a text. -/
def run (m : Mode) (cs : List Char) : Mode := cs.foldl step m

/-- Whether a text that stops in this mode needs more input. -/
def isOpen : Mode → Bool
  | str | esc | block | star => true
  | _ => false

@[simp] theorem run_nil (m : Mode) : m.run [] = m := rfl

@[simp] theorem run_cons (m : Mode) (c : Char) (cs : List Char) :
    m.run (c :: cs) = (m.step c).run cs := rfl

@[simp] theorem run_append (m : Mode) (as bs : List Char) :
    m.run (as ++ bs) = (m.run as).run bs := List.foldl_append

/-! ## Runs inside one segment -/

theorem run_code {cs : List Char} (h : ∀ c ∈ cs, c ≠ '"' ∧ c ≠ '/') : code.run cs = code := by
  induction cs with
  | nil => rfl
  | cons c cs ih =>
      obtain ⟨hquote, hslash⟩ := h c (List.mem_cons_self ..)
      rw [run_cons, step, if_neg hquote, if_neg hslash]
      exact ih fun d hd => h d (List.mem_cons_of_mem _ hd)

theorem run_line {cs : List Char} (h : '\n' ∉ cs) : line.run cs = line := by
  induction cs with
  | nil => rfl
  | cons c cs ih =>
      rw [List.mem_cons, not_or] at h
      obtain ⟨hc, hcs⟩ := h
      rw [run_cons, step, if_neg (Ne.symm hc)]
      exact ih hcs

theorem run_str {cs : List Char} (h : IsStringBody cs) : str.run cs = str := by
  induction h with
  | nil => rfl
  | plain hquote hslash _ ih => rw [run_cons, step, if_neg hquote, if_neg hslash, ih]
  | escaped _ ih => exact ih

/-- A block comment stays open where no star-slash stands, counting a star right before the text
    in the mode `star`. -/
theorem run_comment {cs : List Char} {m : Mode} (hm : m = block ∨ m = star)
    (hstar : m = star → cs.head? ≠ some '/') (h : ¬ ['*', '/'] <:+: cs) :
    m.run cs = block ∨ m.run cs = star := by
  induction cs generalizing m with
  | nil => exact hm
  | cons c cs ih =>
      rw [List.infix_cons_iff, not_or] at h
      obtain ⟨hhead, htail⟩ := h
      have hnext : (m.step c = block ∨ m.step c = star) ∧ (m.step c = star → c = '*') := by
        rcases hm with rfl | rfl
        · by_cases hc : c = '*' <;> simp [step, hc]
        · have hslash : c ≠ '/' := fun hc => hstar rfl (by rw [hc]; rfl)
          by_cases hc : c = '*' <;> simp [step, hc, hslash]
      refine ih hnext.1 (fun hm' hcs => hhead ?_) htail
      obtain ⟨tail, rfl⟩ := List.head?_eq_some_iff.1 hcs
      exact ⟨tail, by rw [hnext.2 hm']; rfl⟩

theorem run_block {cs : List Char} (h : ¬ ['*', '/'] <:+: cs) :
    block.run cs = block ∨ block.run cs = star :=
  run_comment (.inl rfl) (fun hm => absurd hm (by decide)) h

/-! ## Runs over one segment -/

theorem run_blank {c : Char} (h : Text.isBlank c = true) : code.run [c] = code := by
  rcases Text.isBlank_iff.1 h with rfl | rfl | rfl | rfl <;> rfl

theorem run_closedComment {body : List Char} (h : ¬ ['*', '/'] <:+: body ++ ['*']) :
    code.run ('/' :: '*' :: (body ++ ['*', '/'])) = code := by
  have hbody : ¬ ['*', '/'] <:+: body :=
    fun hin => h (hin.trans (List.prefix_append body ['*']).isInfix)
  show block.run (body ++ ['*', '/']) = code
  rw [run_append]
  rcases run_block hbody with hb | hb <;> rw [hb] <;> rfl

/-- No symbol has a quote, and only the first character of a longer one can be a slash. -/
theorem run_spelling {s : Symbol} (h : s ≠ .slash) : code.run s.spelling = code := by
  revert h
  cases s <;> decide

theorem run_word {text : List Char} (h : IsWord text) : code.run text = code :=
  run_code fun c hc =>
    have hpart := h.forall_isWordPart c hc
    ⟨Text.ne_of_class hpart (by decide), Text.ne_of_class hpart (by decide)⟩

theorem run_digits {cs : List Char} (h : IsDigits cs) : code.run cs = code :=
  run_code fun c hc =>
    ⟨Text.ne_of_class (h.2 c hc) (by decide), Text.ne_of_class (h.2 c hc) (by decide)⟩

theorem run_decimal {whole fraction : List Char} (hwhole : IsDigits whole)
    (hfraction : IsDigits fraction) : code.run (whole ++ '.' :: fraction) = code := by
  rw [run_append, run_digits hwhole]
  show code.run fraction = code
  exact run_digits hfraction

theorem run_quoted {body : List Char} (h : IsStringBody body) :
    code.run ('"' :: (body ++ ['"'])) = code := by
  rw [run_cons, run_append]
  show (str.run body).run ['"'] = code
  rw [run_str h]
  rfl

theorem run_startsNothing {c : Char} (h : StartsNothing c) : code.run [c] = code :=
  run_code fun d hd => by
    obtain rfl := List.mem_singleton.1 hd
    exact ⟨h.not_quote, h.ne_slash⟩

/-! ## Runs over segments -/

/-- A mode in which `rest` is read as code is. -/
def Settled (m : Mode) (rest : List Char) : Prop :=
  m.isOpen = false ∧ ∀ c ∈ rest.head?, m.step c = code.step c

theorem settled_of_run_eq_code {cs : List Char} (h : code.run cs = code) (rest : List Char) :
    (code.run cs).Settled rest := by
  rw [h]
  exact ⟨rfl, fun _ _ => rfl⟩

theorem isOpen_run_of_settled {m : Mode} {rest : List Char} (h : m.Settled rest) :
    (m.run rest).isOpen = (code.run rest).isOpen := by
  cases rest with
  | nil => exact h.1
  | cons c rest => rw [run_cons, run_cons, h.2 c rfl]

/-- Behind a line comment only the end of the line can stand. -/
theorem settled_line {body rest : List Char} (h : (Segment.lineComment body).EndsBefore rest) :
    line.Settled rest := by
  refine ⟨rfl, fun c hc => ?_⟩
  obtain ⟨tail, rfl, hgo⟩ := h.exists_cons hc
  obtain rfl : c = '\n' := by simpa [Segment.goesOn] using hgo
  rfl

/-- A slash that is a symbol opens no comment, so neither of its two ways out is taken. -/
theorem settled_slash {rest : List Char} (h : (Segment.symbol .slash).EndsBefore rest) :
    slash.Settled rest := by
  refine ⟨rfl, fun c hc => ?_⟩
  obtain ⟨hslash, hstar⟩ := (h.symbol_stop c hc).2 rfl
  rw [step, step, if_neg hslash, if_neg hstar, if_neg hslash]

theorem settled_run_text {s : Segment} {rest : List Char} (h : s.EndsBefore rest)
    (hclosed : s.isOpen = false) : (code.run s.text).Settled rest := by
  have hwell := h.wellFormed
  cases s with
  | blank c => exact settled_of_run_eq_code (run_blank hwell) rest
  | lineComment body =>
      have hrun : code.run ('/' :: '/' :: body) = line := run_line hwell
      rw [Segment.text, hrun]
      exact settled_line h
  | blockComment body => exact settled_of_run_eq_code (run_closedComment hwell) rest
  | symbol s =>
      by_cases hs : s = .slash
      · subst hs
        exact settled_slash h
      · exact settled_of_run_eq_code (run_spelling hs) rest
  | word text => exact settled_of_run_eq_code (run_word hwell) rest
  | integer digits => exact settled_of_run_eq_code (run_digits hwell) rest
  | decimal whole fraction => exact settled_of_run_eq_code (run_decimal hwell.1 hwell.2) rest
  | string items =>
      have hrow : StringItem.Row ['"'] items := hwell
      exact settled_of_run_eq_code (run_quoted hrow.isStringBody) rest
  | unexpected c => exact settled_of_run_eq_code (run_startsNothing hwell) rest
  | openComment body => exact Bool.noConfusion hclosed
  | openString items dangling => exact Bool.noConfusion hclosed

theorem isOpen_run_text {s : Segment} (h : s.WellFormed) (hopen : s.isOpen = true) :
    (code.run s.text).isOpen = true := by
  cases s with
  | openComment body =>
      show (block.run body).isOpen = true
      rcases run_block h with hb | hb <;> rw [hb] <;> rfl
  | openString items dangling =>
      show (str.run (StringItem.textOf items ++ _)).isOpen = true
      rw [run_append, run_str (StringItem.Row.isStringBody h)]
      cases dangling <;> rfl
  | _ => exact Bool.noConfusion hopen

/-- The mode behind a row of segments is open if the row has an open segment, which is the last. -/
theorem isOpen_run_textOf {segments : List Segment} (h : Segment.Row [] segments) :
    (code.run (Segment.textOf segments)).isOpen = segments.any Segment.isOpen := by
  induction segments with
  | nil => rfl
  | cons s segments ih =>
      obtain ⟨hs, hrow⟩ := h
      rw [List.append_nil] at hs
      rw [Segment.textOf_cons, run_append, List.any_cons]
      cases hopen : s.isOpen with
      | true =>
          -- an open segment runs to the end, so no character is left to close it
          rw [hs.eq_nil_of_isOpen hopen, run_nil, isOpen_run_text hs.wellFormed hopen]
          rfl
      | false => rw [isOpen_run_of_settled (settled_run_text hs hopen), ih hrow, Bool.false_or]

end Mode

/-- A text needs more input exactly if the modes end in one of the four open ones. -/
theorem needsMoreInput_iff_run (source : String) :
    needsMoreInput source = true ↔
      Mode.code.run source.toList = .str ∨ Mode.code.run source.toList = .esc ∨
        Mode.code.run source.toList = .block ∨ Mode.code.run source.toList = .star := by
  have hmodes := Mode.isOpen_run_textOf (Segment.row_readAll source.toList)
  rw [Segment.textOf_readAll] at hmodes
  rw [needsMoreInput_eq, ← hmodes]
  cases Mode.code.run source.toList <;> decide

end Lexis
