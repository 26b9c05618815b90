import Lexis.Proofs.Motion
import Lexis.Proofs.Places
import Lexis.Proofs.Separator
import Lexis.Proofs.Trivia
import Mathlib.Data.List.Basic

set_option autoImplicit false

/-! # Carriage returns before line feeds

Lines may end with a line feed, or with a carriage return and a line feed: outside of strings that
makes no difference. Carriage returns put before the line feeds of a text are blanks, or parts of
comments, even where one comes between the star and the slash of what does not close a comment. So
the segments of the new text can be told from those of the old one (`Segment.withReturns`,
`Segment.readAll_withReturns`). The two walks over the texts are out of step only between a carriage
return and its line feed; at the start of each segment the second one is further by one byte for
each line before (`Position.after_withReturns`), with the same line and column. -/

namespace Lexis

/-! ## Texts -/

namespace Text

/-- A text with a carriage return before each of its line feeds. -/
def withReturns (cs : List Char) : List Char :=
  cs.flatMap fun c => if c = '\n' then ['\r', '\n'] else [c]

@[simp] theorem withReturns_nil : withReturns [] = [] := rfl

@[simp] theorem withReturns_newline (cs : List Char) :
    withReturns ('\n' :: cs) = '\r' :: '\n' :: withReturns cs := rfl

theorem withReturns_cons {c : Char} (h : c ≠ '\n') (cs : List Char) :
    withReturns (c :: cs) = c :: withReturns cs := by
  rw [withReturns, List.flatMap_cons, if_neg h]
  rfl

@[simp] theorem withReturns_append (as bs : List Char) :
    withReturns (as ++ bs) = withReturns as ++ withReturns bs := List.flatMap_append ..

theorem withReturns_of_not_mem {cs : List Char} (h : '\n' ∉ cs) : withReturns cs = cs := by
  induction cs with
  | nil => rfl
  | cons c cs ih =>
      rw [List.mem_cons, not_or] at h
      rw [withReturns_cons (Ne.symm h.1), ih h.2]

/-- A carriage return closes no comment, and opens none. -/
theorem infix_of_infix_withReturns {cs : List Char} (h : ['*', '/'] <:+: withReturns cs) :
    ['*', '/'] <:+: cs := by
  induction cs with
  | nil => exact h
  | cons c cs ih =>
      rw [List.infix_cons_iff]
      by_cases hc : c = '\n'
      · subst hc
        rw [withReturns_newline, List.infix_cons_iff, List.infix_cons_iff] at h
        rcases h with ⟨rest, hstart⟩ | ⟨rest, hstart⟩ | h
        · exact absurd (List.cons.inj hstart).1 (by decide)
        · exact absurd (List.cons.inj hstart).1 (by decide)
        · exact .inr (ih h)
      · rw [withReturns_cons hc, List.infix_cons_iff] at h
        rcases h with ⟨rest, hstart⟩ | h
        · obtain ⟨rfl, hslash⟩ := List.cons.inj hstart
          cases cs with
          | nil => exact absurd hslash (by simp)
          | cons d cs =>
              by_cases hd : d = '\n'
              · subst hd
                exact absurd (List.cons.inj hslash).1 (by decide)
              · rw [withReturns_cons hd] at hslash
                obtain ⟨rfl, -⟩ := List.cons.inj hslash
                exact .inl ⟨cs, rfl⟩
        · exact .inr (ih h)

end Text

/-! ## Segments -/

namespace Segment

/-- The segments of a text without strings, when carriage returns are put before its line feeds. The
    one at the end of a line is part of a comment there, if there is one. -/
def withReturns : List Segment → List Segment
  | [] => []
  | blank '\n' :: segments => blank '\r' :: blank '\n' :: withReturns segments
  | lineComment body :: blank '\n' :: segments =>
    lineComment (body ++ ['\r']) :: blank '\n' :: withReturns segments
  | blockComment body :: segments => blockComment (Text.withReturns body) :: withReturns segments
  | openComment body :: segments => openComment (Text.withReturns body) :: withReturns segments
  | s :: segments => s :: withReturns segments

theorem not_mem_textOf_cons {c : Char} {s : Segment} {segments : List Segment} :
    c ∉ textOf (s :: segments) ↔ c ∉ s.text ∧ c ∉ textOf segments := by
  rw [textOf_cons, List.mem_append, not_or]

/-- What has no quote is no string, so it has no items. -/
theorem items_eq_nil_of_not_mem {s : Segment} (h : '"' ∉ s.text) : s.items = [] := by
  cases s with
  | string items => exact absurd List.mem_cons_self h
  | openString items dangling => exact absurd List.mem_cons_self h
  | _ => rfl

/-- Outside of strings only blanks and block comments go over the end of a line. -/
theorem newline_not_mem_text {s : Segment} (h : s.WellFormed) (hquote : '"' ∉ s.text)
    (hblank : s ≠ blank '\n') (hblock : ∀ body, s ≠ blockComment body)
    (hopen : ∀ body, s ≠ openComment body) : '\n' ∉ s.text := by
  intro hmem
  have hnewline : IsSeparator '\n' := isSeparator_of_isBlank rfl
  cases s with
  | blank c =>
      obtain rfl : '\n' = c := List.mem_singleton.1 hmem
      exact hblank rfl
  | lineComment body =>
      have hbody : '\n' ∉ body := h
      simp [text, hbody] at hmem
  | blockComment body => exact hblock body rfl
  | openComment body => exact hopen body rfl
  | symbol s => exact hnewline.not_mem_spelling s hmem
  | word text =>
      have hpart := IsWord.forall_isWordPart h '\n' hmem
      rw [hnewline.not_wordPart] at hpart
      exact Bool.noConfusion hpart
  | integer digits =>
      have hdigits : IsDigits digits := h
      exact absurd (hdigits.2 '\n' hmem) (by decide)
  | decimal whole fraction =>
      obtain ⟨hwhole, hfraction⟩ : IsDigits whole ∧ IsDigits fraction := h
      rcases List.mem_append.1 hmem with hmem | hmem
      · exact absurd (hwhole.2 '\n' hmem) (by decide)
      · rcases List.mem_cons.1 hmem with hpoint | hmem
        · exact absurd hpoint (by decide)
        · exact absurd (hfraction.2 '\n' hmem) (by decide)
  | string items => exact hquote List.mem_cons_self
  | openString items dangling => exact hquote List.mem_cons_self
  | unexpected c =>
      obtain rfl : '\n' = c := List.mem_singleton.1 hmem
      have hstart : StartsNothing '\n' := h
      exact absurd hstart.not_blank (by decide)

theorem textOf_withReturns {tail : List Char} {segments : List Segment} (hrow : Row tail segments)
    (hquote : '"' ∉ textOf segments) :
    textOf (withReturns segments) = Text.withReturns (textOf segments) := by
  fun_induction withReturns segments with
  | case1 => rfl
  | case2 segments ih => simp_all [Row, text]
  | case3 body segments ih =>
      have hbody : '\n' ∉ body := hrow.1.wellFormed
      simp_all [Row, text, Text.withReturns_cons, Text.withReturns_of_not_mem]
  | case4 body segments ih => simp_all [Row, text, Text.withReturns_cons]
  | case5 body segments ih => simp_all [Row, text, Text.withReturns_cons]
  | case6 s segments hblank hcomment hblock hopen ih =>
      rw [not_mem_textOf_cons] at hquote
      have hline := newline_not_mem_text hrow.1.wellFormed hquote.1 hblank hblock hopen
      rw [textOf_cons, textOf_cons, Text.withReturns_append, ih hrow.2 hquote.2,
        Text.withReturns_of_not_mem hline]

/-- What nothing goes on with, still has nothing to go on with. -/
theorem goesOn_withReturns {s : Segment} {cs : List Char} (h : s.goesOn cs = false)
    (hclosed : s.isOpen = false)
    (hcomment : cs.head? ≠ some '\n' ∨ ∀ body, s ≠ lineComment body) :
    s.goesOn (Text.withReturns cs) = false := by
  cases cs with
  | nil => exact goesOn_nil s
  | cons c cs =>
      by_cases hc : c = '\n'
      · subst hc
        have hno : ∀ body, s ≠ lineComment body := hcomment.resolve_left (fun hne => hne rfl)
        have hreturn : IsSeparator '\r' := isSeparator_of_isBlank rfl
        exact goesOn_append_separator _ hreturn (goesOn_nil s) hclosed (.inr (.inr hno))
      · rw [Text.withReturns_cons hc]
        cases s with
        | integer digits =>
            cases cs with
            | nil => exact h
            | cons d cs =>
                by_cases hd : d = '\n'
                · subst hd
                  simp_all [goesOn]
                · rw [Text.withReturns_cons hd]
                  exact h
        | _ => exact h

/-- A row that starts with a line feed starts with a blank. -/
theorem Row.exists_of_head?_newline {segments : List Segment} (hrow : Row [] segments)
    (h : (textOf segments).head? = some '\n') : ∃ rest, segments = blank '\n' :: rest := by
  obtain ⟨tail, htail⟩ := List.head?_eq_some_iff.1 h
  have hread : readAll (textOf segments) = segments := readAll_eq_iff.2 ⟨rfl, hrow⟩
  rw [htail, readAll_blank rfl] at hread
  exact ⟨_, hread.symm⟩

theorem row_withReturns {segments : List Segment} (hrow : Row [] segments)
    (hquote : '"' ∉ textOf segments) : Row [] (withReturns segments) := by
  fun_induction withReturns segments with
  | case1 => trivial
  | case2 segments ih =>
      rw [not_mem_textOf_cons] at hquote
      exact ⟨⟨rfl, rfl⟩, ⟨rfl, rfl⟩, ih hrow.2 hquote.2⟩
  | case3 body segments ih =>
      rw [not_mem_textOf_cons, not_mem_textOf_cons] at hquote
      have hbody : '\n' ∉ body := hrow.1.wellFormed
      have hcomment : '\n' ∉ body ++ ['\r'] := by simp [hbody]
      exact ⟨⟨hcomment, rfl⟩, ⟨rfl, rfl⟩, ih hrow.2.2 hquote.2.2⟩
  | case4 body segments ih =>
      rw [not_mem_textOf_cons] at hquote
      refine ⟨⟨?_, rfl⟩, ih hrow.2 hquote.2⟩
      intro hclosed
      have hbody : Text.withReturns body ++ ['*'] = Text.withReturns (body ++ ['*']) := by
        rw [Text.withReturns_append]
        rfl
      rw [hbody] at hclosed
      exact hrow.1.wellFormed (Text.infix_of_infix_withReturns hclosed)
  | case5 body segments ih =>
      rw [not_mem_textOf_cons] at hquote
      have hnil := hrow.1.eq_nil_of_isOpen rfl
      rw [List.append_nil] at hnil
      refine ⟨⟨?_, ?_⟩, ih hrow.2 hquote.2⟩
      · intro hclosed
        exact hrow.1.wellFormed (Text.infix_of_infix_withReturns hclosed)
      · rw [textOf_withReturns hrow.2 hquote.2, hnil]
        rfl
  | case6 s segments hblank hcomment hblock hopen ih =>
      rw [not_mem_textOf_cons] at hquote
      refine ⟨⟨hrow.1.wellFormed, ?_⟩, ih hrow.2 hquote.2⟩
      have hcomplete := hrow.1.complete
      rw [List.append_nil] at hcomplete
      rw [textOf_withReturns hrow.2 hquote.2, List.append_nil]
      refine goesOn_withReturns hcomplete ?_ ?_
      · cases s with
        | openComment body => exact absurd rfl (hopen body)
        | openString items dangling => exact absurd List.mem_cons_self hquote.1
        | _ => rfl
      · by_cases hline : ∃ body, s = lineComment body
        · obtain ⟨body, rfl⟩ := hline
          refine .inl ?_
          intro hhead
          obtain ⟨rest, rfl⟩ := Row.exists_of_head?_newline hrow.2 hhead
          exact hcomment body rest rfl rfl
        · exact .inr fun body hs => hline ⟨body, hs⟩

/-- The segments of a text with carriage returns are told by those of the text without. -/
theorem readAll_withReturns {cs : List Char} (hquote : '"' ∉ cs) :
    readAll (Text.withReturns cs) = withReturns (readAll cs) := by
  have hrow := row_readAll cs
  have htext := textOf_readAll cs
  rw [← htext] at hquote
  refine readAll_eq_iff.2 ⟨?_, row_withReturns hrow hquote⟩
  rw [textOf_withReturns hrow hquote, htext]

end Segment

/-! ## Places -/

/-- The motion of what stands on a line, when there is one more byte on each line before it. -/
def Motion.ofReturns (line : Nat) : Motion := down (line - 1) 0

/-- A text that starts at `p` is walked to where the walk over its carriage returns gets to. -/
theorem Position.after_withReturns {p : Position} (h : p.Counted) (cs : List Char) :
    ((Motion.ofReturns p.line).apply p).after (Text.withReturns cs) =
      (Motion.ofReturns (p.after cs).line).apply (p.after cs) := by
  induction cs generalizing p with
  | nil => rfl
  | cons c cs ih =>
      have hrest := ih (h.next c)
      rw [after_cons, ← hrest]
      by_cases hc : c = '\n'
      · subst hc
        have hline := h.line_pos
        rw [Text.withReturns_newline, after_cons, after_cons]
        congr 1
        show (⟨p.line - 1 + p.offset + 1 + 1, p.line + 1, 1⟩ : Position) =
          ⟨p.line + 1 - 1 + (p.offset + 1), p.line + 1, 1⟩
        congr 1
        omega
      · rw [Text.withReturns_cons hc, after_cons, Motion.next_apply _ _ _ h]
        congr 2
        simp [next, hc]

/-- The line feeds before a place are the lines before its own. -/
theorem Position.feedsBefore_after_origin (before behind : List Char) :
    Text.feedsBefore (before ++ behind) (origin.after before).offset =
      (origin.after before).line - 1 := by
  rw [after_origin, Text.feedsBefore_size]
  exact (Nat.add_sub_cancel ..).symm

/-! ## Traces -/

namespace Trace

section

variable {β : Type} {found : Placed Segment → List β} {move : β → β}

theorem flatMap_eq_nil_of_isTrivia (htrivia : ∀ p, p.piece.isTrivia = true → found p = [])
    {segments : List Segment} (h : ∀ s ∈ segments, s.isTrivia = true) (start : Position) :
    (place Segment.text start segments).flatMap found = [] := by
  rw [List.flatMap_eq_nil_iff]
  intro p hp
  exact htrivia p (h p.piece (piece_mem_of_mem_place hp))

/-- What is found moves with the text, if that is so in two parts of it. -/
theorem flatMap_append_withReturns (olds news : List Segment) {segments segments' : List Segment}
    {p : Position} (hp : p.Counted)
    (htext : Segment.textOf news = Text.withReturns (Segment.textOf olds))
    (hfirst : (place Segment.text ((Motion.ofReturns p.line).apply p) news).flatMap found =
      ((place Segment.text p olds).flatMap found).map move)
    (hrest : ∀ q : Position, q.Counted →
      (place Segment.text ((Motion.ofReturns q.line).apply q) segments').flatMap found =
        ((place Segment.text q segments).flatMap found).map move) :
    (place Segment.text ((Motion.ofReturns p.line).apply p) (news ++ segments')).flatMap found =
      ((place Segment.text p (olds ++ segments)).flatMap found).map move := by
  have hafter := Position.after_withReturns hp (Segment.textOf olds)
  rw [← htext] at hafter
  have htail := hrest _ (hp.after (Segment.textOf olds))
  rw [← hafter] at htail
  rw [place_append, place_append, List.flatMap_append, List.flatMap_append, List.map_append,
    hfirst]
  exact congrArg _ htail

/-- What is found in a text is found at the moved places when carriage returns are put in: if blanks
    and closed comments yield nothing, if what a comment without an end yields does not depend on
    its text, and if what any other segment yields moves with the segment. -/
theorem flatMap_withReturns (htrivia : ∀ p, p.piece.isTrivia = true → found p = [])
    (hcongr : ∀ start body body',
      found ⟨start, .openComment body⟩ = found ⟨start, .openComment body'⟩)
    (hmove : ∀ p, p.piece.items = [] →
      found (p.move (.ofReturns p.start.line)) = (found p).map move)
    {segments : List Segment} (hrow : Segment.Row [] segments)
    (hquote : '"' ∉ Segment.textOf segments) {p : Position} (hp : p.Counted) :
    (place Segment.text ((Motion.ofReturns p.line).apply p)
        (Segment.withReturns segments)).flatMap found =
      ((place Segment.text p segments).flatMap found).map move := by
  have hsilent := @flatMap_eq_nil_of_isTrivia β found htrivia
  fun_induction Segment.withReturns segments generalizing p with
  | case1 => rfl
  | case2 segments ih =>
      rw [Segment.not_mem_textOf_cons] at hquote
      refine flatMap_append_withReturns [.blank '\n'] [.blank '\r', .blank '\n'] hp rfl ?_
        fun q hq => ih hrow.2 hquote.2 hq
      rw [hsilent (by simp [Segment.isTrivia]), hsilent (by simp [Segment.isTrivia])]
      rfl
  | case3 body segments ih =>
      rw [Segment.not_mem_textOf_cons, Segment.not_mem_textOf_cons] at hquote
      have hbody : '\n' ∉ body := hrow.1.wellFormed
      refine flatMap_append_withReturns [.lineComment body, .blank '\n']
        [.lineComment (body ++ ['\r']), .blank '\n'] hp ?_ ?_
        fun q hq => ih hrow.2.2 hquote.2.2 hq
      · simp [Segment.text, Text.withReturns_cons, Text.withReturns_of_not_mem hbody]
      · rw [hsilent (by simp [Segment.isTrivia]), hsilent (by simp [Segment.isTrivia])]
        rfl
  | case4 body segments ih =>
      rw [Segment.not_mem_textOf_cons] at hquote
      refine flatMap_append_withReturns [.blockComment body]
        [.blockComment (Text.withReturns body)] hp ?_ ?_ fun q hq => ih hrow.2 hquote.2 hq
      · simp [Segment.text, Text.withReturns_cons]
      · rw [hsilent (by simp [Segment.isTrivia]), hsilent (by simp [Segment.isTrivia])]
        rfl
  | case5 body segments ih =>
      rw [Segment.not_mem_textOf_cons] at hquote
      refine flatMap_append_withReturns [.openComment body]
        [.openComment (Text.withReturns body)] hp ?_ ?_ fun q hq => ih hrow.2 hquote.2 hq
      · simp [Segment.text, Text.withReturns_cons]
      · have hfirst := hmove ⟨p, .openComment body⟩ rfl
        simp only [place, List.flatMap_singleton, ← hfirst]
        exact hcongr ..
  | case6 s segments hblank hcomment hblock hopen ih =>
      rw [Segment.not_mem_textOf_cons] at hquote
      have hline := Segment.newline_not_mem_text hrow.1.wellFormed hquote.1 hblank hblock hopen
      refine flatMap_append_withReturns [s] [s] hp ?_ ?_ fun q hq => ih hrow.2 hquote.2 hq
      · rw [Segment.textOf_cons, Segment.textOf_nil, List.append_nil,
          Text.withReturns_of_not_mem hline]
      · have hfirst := hmove ⟨p, s⟩ (Segment.items_eq_nil_of_not_mem hquote.1)
        simp only [place, List.flatMap_singleton]
        exact hfirst

end

theorem tokens_withReturns {cs : List Char} (hquote : '"' ∉ cs) :
    (ofText (Text.withReturns cs)).tokens =
      (ofText cs).tokens.map fun t => t.move (.ofReturns t.start.line) := by
  rw [tokens, tokens, List.filterMap_eq_flatMap_toList, List.filterMap_eq_flatMap_toList, ofText,
    ofText, Segment.readAll_withReturns hquote]
  rw [← Segment.textOf_readAll cs] at hquote
  refine flatMap_withReturns ?_ ?_ ?_ (Segment.row_readAll cs) hquote Position.counted_origin
  · intro p hp
    rw [(Placed.isTrivia_iff.1 hp).1]
    rfl
  · intro start body body'
    rfl
  · intro p _
    rw [Placed.token?_move]
    cases htoken : p.token? with
    | none => rfl
    | some t =>
        rw [← Placed.start_of_token? htoken]
        rfl

theorem errors_withReturns {cs : List Char} (hquote : '"' ∉ cs) :
    (ofText (Text.withReturns cs)).errors =
      (ofText cs).errors.map fun e => e.move (.ofReturns e.start.line) := by
  rw [errors, errors, ofText, ofText, Segment.readAll_withReturns hquote]
  rw [← Segment.textOf_readAll cs] at hquote
  refine flatMap_withReturns ?_ ?_ ?_ (Segment.row_readAll cs) hquote Position.counted_origin
  · intro p hp
    exact (Placed.isTrivia_iff.1 hp).2
  · intro start body body'
    rfl
  · intro p hitems
    have herrors (q : Placed Segment) (hq : q.piece.items = []) :
        q.errors = q.ownError?.toList := by
      rw [Placed.errors, hq]
      rfl
    rw [herrors p hitems, herrors (p.move _) hitems, Placed.ownError?_move]
    cases hown : p.ownError? with
    | none => rfl
    | some e =>
        obtain ⟨fault, -, rfl⟩ := Option.map_eq_some_iff.1 hown
        rfl

end Trace

namespace Scanner

/-- In a text without quotes it makes no difference whether lines end with a line feed or with a
    carriage return and a line feed: all that is found stays, on the same line and in the same
    column, and moves by one byte for each line feed before it. -/
theorem scan_withReturns (s : Scanner) (source : String) (hquote : '"' ∉ source.toList) :
    (s.scan (String.ofList (Text.withReturns source.toList))).2.tokens =
        (s.scan source).2.tokens.map
          (fun t => t.move (.down (Text.feedsBefore source.toList t.span.start) 0)) ∧
      (s.scan (String.ofList (Text.withReturns source.toList))).1.errors =
        (s.scan source).1.errors.map
          fun e => e.move (.down (Text.feedsBefore source.toList e.span.start) 0) := by
  rw [tokens_scan, tokens_scan, errors_scan, errors_scan, String.toList_ofList,
    Trace.tokens_withReturns hquote, Trace.errors_withReturns hquote]
  constructor
  · refine List.map_congr_left fun t ht => ?_
    obtain ⟨before, behind, htext, hstart⟩ := Trace.exists_of_mem_tokens ht
    rw [Segment.textOf_readAll] at htext
    rw [htext, Token.span, hstart, Position.feedsBefore_after_origin]
    rfl
  · refine List.map_congr_left fun e he => ?_
    obtain ⟨before, behind, htext, -, hstart⟩ :=
      Trace.exists_of_mem_errors (Segment.row_readAll source.toList) he
    rw [Segment.textOf_readAll] at htext
    rw [htext, LexError.span, hstart, Position.feedsBefore_after_origin]
    rfl

/-- A carriage return between the star and the slash of what closes no comment, one at the end of a
    comment in its line, and errors behind each of them. -/
theorem scan_withReturns_comments :
    '"' ∉ "a /* *\n/ */ ~\n// c\nb /*".toList ∧
      (scan {} "a /* *\r\n/ */ ~\r\n// c\r\nb /*").2.tokens =
        [⟨.identifier, "a", none, ⟨0, 1, 1⟩, 1⟩, ⟨.identifier, "b", none, ⟨22, 4, 1⟩, 23⟩] ∧
      (scan {} "a /* *\r\n/ */ ~\r\n// c\r\nb /*").1.errors =
        [⟨.unexpectedCharacter '~', ⟨13, 2, 6⟩, 14⟩,
          ⟨.unterminatedBlockComment, ⟨24, 4, 3⟩, 26⟩] := by
  have hquote : '"' ∉ "a /* *\n/ */ ~\n// c\nb /*".toList := by decide
  have hreturns : String.ofList (Text.withReturns "a /* *\n/ */ ~\n// c\nb /*".toList) =
      "a /* *\r\n/ */ ~\r\n// c\r\nb /*" := by decide +kernel
  have htokens : (scan {} "a /* *\n/ */ ~\n// c\nb /*").2.tokens =
      [⟨.identifier, "a", none, ⟨0, 1, 1⟩, 1⟩, ⟨.identifier, "b", none, ⟨19, 4, 1⟩, 20⟩] := by
    decide +kernel
  have herrors : (scan {} "a /* *\n/ */ ~\n// c\nb /*").1.errors =
      [⟨.unexpectedCharacter '~', ⟨12, 2, 6⟩, 13⟩,
        ⟨.unterminatedBlockComment, ⟨21, 4, 3⟩, 23⟩] := by
    decide +kernel
  have hscan := scan_withReturns {} "a /* *\n/ */ ~\n// c\nb /*" hquote
  rw [hreturns, htokens, herrors] at hscan
  refine ⟨hquote, hscan.1.trans ?_, hscan.2.trans ?_⟩
  · decide +kernel
  · decide +kernel

end Scanner

end Lexis
