import Lexis.Highlight
import Lexis.Proofs.Lexeme
import Lexis.Proofs.Places

set_option autoImplicit false

/-! # Highlighted lines

A highlighted line is the line with control sequences put in around its tokens, and nothing else
done to it. `Coloured` says so without the cutting that highlighting does, which could fail: it goes
along the line, from one token to the next, and has the sequences for each kind as numbers
(`TokenKind.codes`). Highlighting does what the relation says (`Coloured.highlightFrom_eq`), and the
tokens of a scan are always in the line, one behind the other (`Trace.exists_coloured`). Where the
line has no escape character of its own, `Ansi.strip` takes out again what was put in. -/

namespace Lexis

/-! ## Control sequences -/

namespace Ansi

/-- The text behind the control sequence that a text starts with: an escape character, an opening
    bracket, one or more digits and an `m`. -/
def behindControl? : List Char → Option (List Char)
  | '\x1b' :: '[' :: cs =>
    match cs.takeWhile Char.isDigit, cs.dropWhile Char.isDigit with
    | _ :: _, 'm' :: rest => some rest
    | _, _ => none
  | _ => none

theorem length_behindControl? {cs rest : List Char} (h : behindControl? cs = some rest) :
    rest.length < cs.length := by
  unfold behindControl? at h
  split at h
  · next cs =>
      split at h
      · next hrest =>
          obtain rfl := Option.some.inj h
          have hle := (List.dropWhile_sublist Char.isDigit (l := cs)).length_le
          rw [hrest] at hle
          simp only [List.length_cons] at hle ⊢
          omega
      · simp at h
  · simp at h

/-- A text without the control sequences in it. -/
def strip : List Char → List Char
  | [] => []
  | c :: cs =>
    match _h : behindControl? (c :: cs) with
    | some rest => strip rest
    | none => c :: strip cs
termination_by cs => cs.length
decreasing_by
  · exact length_behindControl? _h
  · simp

theorem strip_of_behindControl? {cs rest : List Char} (h : behindControl? cs = some rest) :
    strip cs = strip rest := by
  cases cs with
  | nil => simp [behindControl?] at h
  | cons c cs =>
      rw [strip]
      split
      · next rest' h' => rw [Option.some.inj (h.symm.trans h')]
      · next h' => exact absurd (h.symm.trans h') (by simp)

theorem strip_cons {c : Char} (h : c ≠ '\x1b') (cs : List Char) :
    strip (c :: cs) = c :: strip cs := by
  have hnone : behindControl? (c :: cs) = none := by
    unfold behindControl?
    split
    · next heq => exact absurd (List.cons.inj heq).1 h
    · rfl
  rw [strip]
  split
  · next rest h' => exact absurd (hnone.symm.trans h') (by simp)
  · rfl

theorem behindControl?_control (n : Nat) (cs : List Char) :
    behindControl? (control n ++ cs) = some cs := by
  have hdigits : ∀ c ∈ Nat.toDigits 10 n, c.isDigit = true := by
    intro c hc
    exact Nat.isDigit_of_mem_toDigits (by decide) (by decide) hc
  have hstop : ∀ c ∈ ('m' :: cs).head?, c.isDigit = false := by simp
  have htext : control n ++ cs = '\x1b' :: '[' :: (Nat.toDigits 10 n ++ 'm' :: cs) := by
    simp [control]
  rw [htext, behindControl?, Text.takeWhile_run hdigits hstop, Text.dropWhile_run hdigits hstop]
  obtain ⟨d, ds, hcons⟩ := List.exists_cons_of_ne_nil (Nat.toDigits_ne_nil (n := n) (b := 10))
  rw [hcons]
  rfl

/-- Control sequences in front of a text are taken out. -/
theorem strip_controls (codes : List Nat) (cs : List Char) :
    strip (codes.flatMap control ++ cs) = strip cs := by
  induction codes with
  | nil => rfl
  | cons n codes ih =>
      rw [List.flatMap_cons, List.append_assoc,
        strip_of_behindControl? (behindControl?_control n _), ih]

/-- Text without escape characters stays. -/
theorem strip_append {as : List Char} (h : '\x1b' ∉ as) (cs : List Char) :
    strip (as ++ cs) = as ++ strip cs := by
  induction as with
  | nil => rfl
  | cons c as ih =>
      rw [List.mem_cons, not_or] at h
      rw [List.cons_append, strip_cons (Ne.symm h.1), ih h.2, List.cons_append]

end Ansi

/-! ## Colours of tokens -/

/-- The numbers of the control sequences that stand before and behind a token of a kind: keywords
    are bold and blue, strings green, numbers magenta and operators cyan. -/
def TokenKind.codes : TokenKind → List Nat × List Nat
  | .keyword _ => ([1, 34], [39, 0])
  | .string => ([32], [39])
  | .number => ([35], [39])
  | .symbol s => if s.isOperator then ([36], [39]) else ([], [])
  | .identifier | .endOfInput => ([], [])

theorem Token.highlighted_eq (t : Token) :
    t.highlighted = t.kind.codes.1.flatMap Ansi.control ++
      (t.lexeme.toList ++ t.kind.codes.2.flatMap Ansi.control) := by
  unfold highlighted
  cases t.kind with
  | symbol s =>
      rw [TokenKind.highlight?, TokenKind.codes]
      cases s.isOperator
      · simp
      · simp [Ansi.Style.paint, Ansi.Style.opening, Ansi.Style.closing, Color.code]
  | _ =>
      simp [TokenKind.highlight?, TokenKind.codes, Ansi.Style.paint, Ansi.Style.opening,
        Ansi.Style.closing, Color.code]

theorem cutOrFault_size (start : Nat) (as bs : List Char) :
    cutOrFault start (start + Text.size as) (as ++ bs) = .ok (as, bs) := by
  rw [cutOrFault, if_pos (Nat.le_add_right ..), Nat.add_sub_cancel_left, Text.cut?_size_append]

/-- `Coloured start cs tokens out`: from the offset `start` on there is the text `cs`, in which the
    tokens stand one behind the other, each where it says that it is; and `out` is this text with
    control sequences right before and right behind the tokens. -/
inductive Coloured : Nat → List Char → List Token → List Char → Prop
  | rest (start : Nat) (cs : List Char) : Coloured start cs [] cs
  | token {start : Nat} {gap cs out : List Char} {t : Token} {tokens : List Token} :
      t.span.start = start + Text.size gap →
      t.span.stop = t.span.start + Text.size t.lexeme.toList →
      Coloured t.span.stop cs tokens out →
      Coloured start (gap ++ (t.lexeme.toList ++ cs)) (t :: tokens)
        (gap ++ (t.kind.codes.1.flatMap Ansi.control ++
          (t.lexeme.toList ++ (t.kind.codes.2.flatMap Ansi.control ++ out))))

namespace Coloured

variable {start : Nat} {cs out : List Char} {tokens : List Token}

theorem highlightFrom_eq (h : Coloured start cs tokens out) :
    highlightFrom start cs tokens = .ok out := by
  induction h with
  | rest start cs => rfl
  | @token start gap cs out t tokens hstart hstop _ ih =>
      have hgap := cutOrFault_size start gap (t.lexeme.toList ++ cs)
      have hlexeme := cutOrFault_size t.span.start t.lexeme.toList cs
      rw [← hstart] at hgap
      rw [← hstop] at hlexeme
      simp only [highlightFrom, hgap, hlexeme, ih, Token.highlighted_eq, List.append_assoc, bind,
        Except.bind, pure, Except.pure]

theorem eq_of_nil (h : Coloured start cs [] out) : out = cs := by
  cases h
  rfl

/-- Taking out control sequences gives back a text that has no escape characters. -/
theorem strip_eq (h : Coloured start cs tokens out) (hplain : '\x1b' ∉ cs) :
    Ansi.strip out = cs := by
  induction h with
  | rest start cs =>
      have hstrip := Ansi.strip_append hplain []
      rwa [List.append_nil, Ansi.strip, List.append_nil] at hstrip
  | @token start gap cs out t tokens _ _ _ ih =>
      rw [List.mem_append, List.mem_append, not_or, not_or] at hplain
      obtain ⟨hgap, hlexeme, hcs⟩ := hplain
      rw [Ansi.strip_append hgap, Ansi.strip_controls, Ansi.strip_append hlexeme,
        Ansi.strip_controls, ih hcs]

end Coloured

/-- The tokens of a text stand in it, one behind the other. -/
theorem Trace.exists_coloured (start : Position) (gap : List Char) (segments : List Segment) :
    ∃ out, Coloured start.offset (gap ++ Segment.textOf segments)
      (tokens (place Segment.text (start.after gap) segments)) out := by
  induction segments generalizing start gap with
  | nil => exact ⟨_, .rest ..⟩
  | cons s segments ih =>
      rw [place, tokens_cons, Segment.textOf_cons]
      cases htoken : Placed.token? ⟨start.after gap, s⟩ with
      | none =>
          -- the segment is part of what stands between tokens
          have hrest := ih start (gap ++ s.text)
          rwa [Position.after_append, List.append_assoc] at hrest
      | some t =>
          obtain ⟨out, hrest⟩ := ih ((start.after gap).after s.text) []
          have hlexeme : t.lexeme.toList = s.text := Placed.toList_lexeme_of_token? htoken
          have hstart : t.span.start = start.offset + Text.size gap := by
            rw [Token.span, Placed.start_of_token? htoken, Position.offset_after]
          have hstop : t.span.stop = t.span.start + Text.size t.lexeme.toList := by
            rw [Placed.stop_of_token? htoken, hlexeme, hstart, Position.offset_after]
          have hoffset : ((start.after gap).after s.text).offset = t.span.stop := by
            rw [Position.offset_after, Placed.stop_of_token? htoken]
          rw [hoffset, List.nil_append, Position.after_nil] at hrest
          rw [← hlexeme] at hrest ⊢
          exact ⟨_, .token hstart hstop hrest⟩

/-- A line can always be highlighted. It is left as it is exactly if it has no tokens; else control
    sequences are put in around them, and taking these out gives back the line. -/
theorem exists_highlight (line : String) :
    ∃ result, highlight? line = .ok result ∧
      (result = none ↔ (scan line).tokens = []) ∧
      Coloured 0 line.toList (scan line).tokens (result.getD line).toList ∧
      ('\x1b' ∉ line.toList → Ansi.strip (result.getD line).toList = line.toList) := by
  obtain ⟨out, hout⟩ := Trace.exists_coloured .origin [] (Segment.readAll line.toList)
  rw [Segment.textOf_readAll] at hout
  have hcoloured : Coloured 0 line.toList (scan line).tokens out := hout
  have hlight := hcoloured.highlightFrom_eq
  unfold highlight?
  cases htokens : (scan line).tokens with
  | nil =>
      rw [htokens] at hcoloured
      obtain rfl := hcoloured.eq_of_nil
      exact ⟨none, rfl, by simp, hcoloured, hcoloured.strip_eq⟩
  | cons t tokens =>
      rw [htokens] at hcoloured hlight
      refine ⟨some (String.ofList out), ?_, by simp, ?_, ?_⟩
      · simp only [hlight, bind, Except.bind, pure, Except.pure]
      · rwa [Option.getD_some, String.toList_ofList]
      · intro hplain
        rw [Option.getD_some, String.toList_ofList]
        exact hcoloured.strip_eq hplain

/-- A keyword, and behind it two characters that are errors. -/
theorem exists_highlight_keyword :
    highlight? "if ~é" = .ok (some "\x1b[1m\x1b[34mif\x1b[39m\x1b[0m ~é") ∧
      '\x1b' ∉ "if ~é".toList ∧
      Ansi.strip "\x1b[1m\x1b[34mif\x1b[39m\x1b[0m ~é".toList = "if ~é".toList := by
  have hlight : highlight? "if ~é" = .ok (some "\x1b[1m\x1b[34mif\x1b[39m\x1b[0m ~é") := by
    decide +kernel
  have hplain : '\x1b' ∉ "if ~é".toList := by decide
  obtain ⟨result, hresult, -, -, hstrip⟩ := exists_highlight "if ~é"
  obtain rfl := Except.ok.inj (hresult.symm.trans hlight)
  exact ⟨hlight, hplain, hstrip hplain⟩

end Lexis
