import Lexis.Complete
import Lexis.Proofs.Cut
import Lexis.Proofs.LongestMatch

set_option autoImplicit false

/-! # Completion and scans

Completion looks for the start of the last word backwards, where a scan looks for its end forwards.
They agree on the word: if the last token of a text is a word that ends with the text, and starts
where completion says, then the candidates are the keywords that start with it, and each can take
its place without a change to what is found before it (`exists_completion`). What stands before a
word sees its first character only, which a candidate shares (`Segment.Row.congr_cons`).

Commands are completed behind white space, but only if no space is part of it
(`complete_indented_iff`). -/

namespace Lexis

/-! ## Words at the end of a text -/

namespace Segment

theorem exists_word_of_token? {s : Segment} {kind : TokenKind} {literal? : Option Literal}
    (h : s.token? = some (kind, literal?)) (hkind : kind = .identifier ∨ kind.isKeyword = true) :
    ∃ text, s = word text := by
  rcases token?_cases h with ⟨sym, -, rfl, -⟩ | ⟨text, hword, -, -⟩ | ⟨-, rfl, -⟩ | ⟨-, -, rfl, -⟩
  · simp [TokenKind.isKeyword] at hkind
  · exact ⟨text, hword⟩
  · simp [TokenKind.isKeyword] at hkind
  · simp [TokenKind.isKeyword] at hkind

/-- A last word can go on. -/
theorem readAll_append_word {cs text more : List Char} {segments : List Segment}
    (h : readAll cs = segments ++ [word text]) (hmore : ∀ c ∈ more, Text.isWordPart c = true) :
    readAll (textOf segments ++ (text ++ more)) = segments ++ [word (text ++ more)] := by
  have hrow := row_readAll cs
  rw [h] at hrow
  obtain ⟨hsegments, hword, -⟩ := row_append.1 hrow
  obtain ⟨c, tail, rfl, hc, htail⟩ : IsWord text := hword.wellFormed
  have hpoint : c ≠ '.' := Text.ne_of_class hc (by decide)
  have hbefore : Row (c :: tail) segments := by simpa [Segment.text] using hsegments
  have hlonger : IsWord (c :: tail ++ more) := by
    refine ⟨c, tail ++ more, rfl, hc, fun d hd => ?_⟩
    rcases List.mem_append.1 hd with hd | hd
    · exact htail d hd
    · exact hmore d hd
  refine readAll_eq_iff.2 ⟨by simp [Segment.text], row_append.2 ⟨?_, ⟨hlonger, rfl⟩, trivial⟩⟩
  simpa [Segment.text] using hbefore.congr_cons hpoint (tail ++ more)

end Segment

namespace Trace

/-- A last token that stops where the text does is that of the last segment. -/
theorem exists_of_tokens_eq_concat {cs : List Char} {ts : List Token} {t : Token}
    (h : (ofText cs).tokens = ts ++ [t]) (hstop : t.span.stop = Text.size cs) :
    ∃ segments segment, Segment.readAll cs = segments ++ [segment] ∧
      tokens (place Segment.text .origin segments) = ts ∧
      Placed.token? ⟨Position.origin.after (Segment.textOf segments), segment⟩ = some t := by
  obtain ⟨before, p, behind, htrace, htokens, htoken, -⟩ := exists_of_tokens_eq h
  rw [List.append_assoc] at htrace
  obtain ⟨segments, rest, hsegments, rfl, hrest⟩ := place_eq_append_iff.1 htrace
  cases rest with
  | nil => simp [place] at hrest
  | cons segment last =>
      obtain ⟨rfl, rfl⟩ := List.cons.inj hrest
      refine ⟨segments, segment, ?_, ?_, htoken⟩
      · cases last with
        | nil => exact hsegments
        | cons s last =>
            -- the text would go on behind the token
            have hrow := Segment.row_readAll cs
            have htext := Segment.textOf_readAll cs
            rw [hsegments] at hrow htext
            have hpos := Text.size_pos (hrow.text_ne_nil_of_mem (s := s) (by simp))
            have hend : t.span.stop =
                (Position.origin.after (Segment.textOf segments)).offset +
                  Text.size segment.text := Placed.stop_of_token? htoken
            rw [hstop, Position.offset_after, Position.offset_origin, ← htext] at hend
            simp only [Segment.textOf_append, Segment.textOf_cons, Text.size_append] at hend
            omega
      · rw [tokens_append, tokens_cons, htoken] at htokens
        exact (List.append_inj' htokens rfl).1

theorem exists_word_of_tokens_eq_concat {cs : List Char} {ts : List Token} {t : Token}
    (h : (ofText cs).tokens = ts ++ [t]) (hstop : t.span.stop = Text.size cs)
    (hkind : t.kind = .identifier ∨ t.kind.isKeyword = true) :
    ∃ segments, Segment.readAll cs = segments ++ [.word t.lexeme.toList] ∧
      tokens (place Segment.text .origin segments) = ts ∧
      t.start = Position.origin.after (Segment.textOf segments) := by
  obtain ⟨segments, segment, hread, hbefore, htoken⟩ := exists_of_tokens_eq_concat h hstop
  obtain ⟨⟨kind, literal?⟩, hsegment, ht⟩ := Option.map_eq_some_iff.1 htoken
  obtain ⟨text, rfl⟩ := Segment.exists_word_of_token? hsegment (by rwa [← ht] at hkind)
  have hlexeme : t.lexeme.toList = text := Placed.toList_lexeme_of_token? htoken
  rw [← hlexeme] at hread
  exact ⟨segments, hread, hbefore, Placed.start_of_token? htoken⟩

/-- What is found in a text that ends with a word. -/
theorem ofText_concat_word {cs text : List Char} {segments : List Segment}
    (h : Segment.readAll cs = segments ++ [.word text]) :
    (ofText cs).tokens = tokens (place Segment.text .origin segments) ++
        [⟨.ofWord (String.ofList text), String.ofList text, none,
          Position.origin.after (Segment.textOf segments),
          (Position.origin.after (Segment.textOf segments)).offset + Text.size text⟩] ∧
      (ofText cs).errors = errors (place Segment.text .origin segments) := by
  rw [ofText, h, place_append, tokens_append, errors_append]
  exact ⟨rfl, List.append_nil _⟩

/-- A last word that starts a keyword can be replaced by it. -/
theorem ofText_append_keyword {cs text : List Char} {segments : List Segment}
    (h : Segment.readAll cs = segments ++ [.word text]) {k : Keyword}
    (hk : text <+: k.spelling.toList) :
    (ofText (Segment.textOf segments ++ k.spelling.toList)).tokens =
        tokens (place Segment.text .origin segments) ++
          [⟨.keyword k, k.spelling, none, Position.origin.after (Segment.textOf segments),
            (Position.origin.after (Segment.textOf segments)).offset + k.spelling.utf8ByteSize⟩] ∧
      (ofText (Segment.textOf segments ++ k.spelling.toList)).errors = (ofText cs).errors := by
  obtain ⟨more, hmore⟩ := hk
  have hparts : ∀ c ∈ more, Text.isWordPart c = true := fun c hc =>
    k.isWord_spelling.forall_isWordPart c (by simp [← hmore, hc])
  have hread := Segment.readAll_append_word h hparts
  rw [hmore] at hread
  obtain ⟨htokens, herrors⟩ := ofText_concat_word hread
  have hkind : TokenKind.ofWord k.spelling = .keyword k := by
    rw [TokenKind.ofWord, Keyword.ofText?_spelling]
  rw [htokens, herrors, (ofText_concat_word h).2, String.ofList_toList, hkind, Text.size_toList]
  exact ⟨rfl, rfl⟩

end Trace

/-! ## What is completed -/

namespace Completion

theorem prefix_of_mem_startingWith {needle : List Char} {candidates : List String} {k : String}
    (h : k ∈ startingWith needle candidates) : needle <+: k.toList :=
  List.isPrefixOf_iff_prefix.1 (List.mem_filter.1 h).2

/-- The text before the place of completion is a front and the needle of the candidates. The needle
    is the beginning of a command or a word, which may be empty; then nothing is offered. -/
theorem exists_ofText (before : List Char) :
    ∃ front needle, before = front ++ needle ∧
      ((isCommand before = true ∧ needle = Text.trimStart before ∧
          ofText before = ⟨Text.size front, startingWith needle commandNames⟩) ∨
        (isCommand before = false ∧ needle = lastWord before ∧
          ofText before = ⟨Text.size front, if needle = [] then [] else
            startingWith needle (Keyword.all.map Keyword.spelling)⟩)) := by
  have hsize (front needle : List Char) (h : front ++ needle = before) :
      Text.size before - Text.size needle = Text.size front := by
    rw [← h, Text.size_append, Nat.add_sub_cancel]
  cases hcommand : isCommand before with
  | true =>
      have hsplit := before.takeWhile_append_dropWhile (p := Text.isWhiteSpace)
      refine ⟨_, _, hsplit.symm, .inl ⟨rfl, rfl, ?_⟩⟩
      rw [ofText, if_pos hcommand, ← hsize _ _ hsplit]
      rfl
  | false =>
      have hsplit : (before.reverse.dropWhile Text.isWordPart).reverse ++ lastWord before =
          before := by
        rw [lastWord, ← List.reverse_append, List.takeWhile_append_dropWhile, List.reverse_reverse]
      refine ⟨_, _, hsplit.symm, .inr ⟨rfl, rfl, ?_⟩⟩
      rw [ofText, if_neg (by simp [hcommand]), ← hsize _ _ hsplit]
      simp only
      split <;> rfl

/-- What is completed ends at the place of completion, and each candidate starts with it. -/
theorem exists_needle (before : List Char) :
    ∃ front needle, before = front ++ needle ∧ (ofText before).start = Text.size front ∧
      ∀ k ∈ (ofText before).candidates, needle <+: k.toList := by
  obtain ⟨front, needle, hsplit, hcases⟩ := exists_ofText before
  refine ⟨front, needle, hsplit, ?_⟩
  rcases hcases with ⟨-, -, heq⟩ | ⟨-, -, heq⟩
  · rw [heq]
    exact ⟨rfl, fun k hk => prefix_of_mem_startingWith hk⟩
  · rw [heq]
    refine ⟨rfl, fun k hk => ?_⟩
    by_cases hempty : needle = []
    · exact hempty ▸ List.nil_prefix
    · rw [if_neg hempty] at hk
      exact prefix_of_mem_startingWith hk

/-- A completion at the start of a last word offers the keywords that start with the word, and it
    does not complete a command. -/
theorem ofText_of_word {cs text : List Char} {segments : List Segment}
    (h : Segment.readAll cs = segments ++ [.word text])
    (hstart : (ofText cs).start = Text.size (Segment.textOf segments)) :
    isCommand cs = false ∧
      (ofText cs).candidates = startingWith text (Keyword.all.map Keyword.spelling) := by
  have hrow := Segment.row_readAll cs
  have htext := Segment.textOf_readAll cs
  rw [h] at hrow htext
  obtain ⟨c, tail, rfl, hc, -⟩ : IsWord text := (Segment.row_append.1 hrow).2.1.wellFormed
  have hword : Segment.textOf segments ++ c :: tail = cs := by
    simpa [Segment.text] using htext
  obtain ⟨front, needle, hsplit, hcases⟩ := exists_ofText cs
  have hneedle (hfront : (ofText cs).start = Text.size front) : c :: tail = needle :=
    (Text.append_inj_of_size (hword.trans hsplit) (hstart.symm.trans hfront)).2
  rcases hcases with ⟨hcommand, htrim, heq⟩ | ⟨hcommand, -, heq⟩
  · -- a command starts with a dot
    rw [isCommand, Bool.and_eq_true, ← htrim, ← hneedle (by rw [heq])] at hcommand
    obtain rfl : c = '.' := by simpa using hcommand.1
    exact absurd hc (by decide)
  · rw [heq, ← hneedle (by rw [heq])]
    exact ⟨hcommand, rfl⟩

end Completion

theorem complete_eq_ok (line : String) {offset : Nat}
    (h : Text.isBoundary line.toList offset = true ∨ line.utf8ByteSize ≤ offset) :
    ∃ before behind, line.toList = before ++ behind ∧
      Text.size before = min offset line.utf8ByteSize ∧
      complete line offset = .ok (.ofText before) := by
  have hcut : ∃ before behind,
      Text.cut? line.toList (min offset (Text.size line.toList)) = some (before, behind) := by
    by_cases hle : Text.size line.toList ≤ offset
    · rw [Nat.min_eq_right hle]
      have hall := Text.cut?_size_append line.toList []
      rw [List.append_nil] at hall
      exact ⟨_, _, hall⟩
    · rw [← Text.size_toList] at h
      rw [Nat.min_eq_left (Nat.le_of_not_le hle)]
      obtain ⟨⟨before, behind⟩, hcut⟩ := Option.isSome_iff_exists.1 (h.resolve_right hle)
      exact ⟨before, behind, hcut⟩
  obtain ⟨before, behind, hcut⟩ := hcut
  obtain ⟨htext, hsize⟩ := Text.cut?_eq_some_iff.1 hcut
  refine ⟨before, behind, htext, ?_, ?_⟩
  · rw [← hsize, Text.size_toList]
  · simp only [complete, hcut]

/-- A line can be completed at each of its boundaries and past its end. The needle of the
    candidates ends at the place of completion, and each candidate starts with it. If it is the last
    token of the text up to there, and a word, then the candidates are the keywords that start with
    it, and each of them can take its place: the tokens before it stay, and so do the errors. -/
theorem exists_completion (line : String) (offset : Nat)
    (h : Text.isBoundary line.toList offset = true ∨ line.utf8ByteSize ≤ offset) :
    ∃ front needle behind completion,
      line.toList = front ++ (needle ++ behind) ∧
      Text.size (front ++ needle) = min offset line.utf8ByteSize ∧
      complete line offset = .ok completion ∧ completion.start = Text.size front ∧
      (∀ k ∈ completion.candidates, needle <+: k.toList) ∧
      ∀ ts t, (scan (String.ofList (front ++ needle))).tokens = ts ++ [t] →
        t.span = ⟨completion.start, Text.size (front ++ needle)⟩ →
        t.kind = .identifier ∨ t.kind.isKeyword = true →
          Completion.isCommand (front ++ needle) = false ∧
          completion.candidates =
            (Keyword.all.map Keyword.spelling).filter (t.lexeme.toList.isPrefixOf ·.toList) ∧
          ∀ k : Keyword, k.spelling ∈ completion.candidates →
            (scan (String.ofList front ++ k.spelling)).tokens =
                ts ++ [⟨.keyword k, k.spelling, none, t.start,
                  completion.start + k.spelling.utf8ByteSize⟩] ∧
              (scan (String.ofList front ++ k.spelling)).errors =
                (scan (String.ofList (front ++ needle))).errors := by
  obtain ⟨before, behind, htext, hsize, hcomplete⟩ := complete_eq_ok line h
  obtain ⟨front, needle, rfl, hstart, hcandidates⟩ := Completion.exists_needle before
  refine ⟨front, needle, behind, _, by rw [htext, List.append_assoc], hsize, hcomplete, hstart,
    hcandidates, ?_⟩
  intro ts t htokens hspan hkind
  rw [scan, String.toList_ofList] at htokens
  obtain ⟨segments, hread, hbefore, hplace⟩ :=
    Trace.exists_word_of_tokens_eq_concat htokens (by rw [hspan]) hkind
  have hoffset : t.start.offset = Text.size (Segment.textOf segments) := by
    rw [hplace, Position.offset_after, Position.offset_origin, Nat.zero_add]
  have hword : (Completion.ofText (front ++ needle)).start = Text.size (Segment.textOf segments) :=
    (congrArg Span.start hspan).symm.trans hoffset
  obtain ⟨hcommand, hkeywords⟩ := Completion.ofText_of_word hread hword
  have htext := Segment.textOf_readAll (front ++ needle)
  rw [hread, Segment.textOf_append] at htext
  obtain ⟨hfront, -⟩ := Text.append_inj_of_size htext (hword.symm.trans hstart)
  refine ⟨hcommand, hkeywords, fun k hk => ?_⟩
  rw [hkeywords] at hk
  have hfound := Trace.ofText_append_keyword hread (Completion.prefix_of_mem_startingWith hk)
  rw [hbefore, ← hplace, hoffset, hfront] at hfound
  have hlist : (String.ofList front ++ k.spelling).toList = front ++ k.spelling.toList := by simp
  rw [hstart, scan, scan, hlist, String.toList_ofList]
  exact hfound

/-- A word behind a point, in a line with characters of two bytes on both sides of it. -/
theorem exists_completion_continue :
    Text.isBoundary "é1.con*é".toList 7 = true ∧
      complete "é1.con*é" 7 = .ok ⟨4, ["const", "continue"]⟩ ∧
      (scan "é1.con").tokens =
        [⟨.number, "1", some (.integer 1), ⟨2, 1, 2⟩, 3⟩,
          ⟨.symbol .dot, ".", none, ⟨3, 1, 3⟩, 4⟩] ++
        [⟨.identifier, "con", none, ⟨4, 1, 4⟩, 7⟩] ∧
      (scan "é1.continue").tokens =
        [⟨.number, "1", some (.integer 1), ⟨2, 1, 2⟩, 3⟩,
          ⟨.symbol .dot, ".", none, ⟨3, 1, 3⟩, 4⟩] ++
        [⟨.keyword .continue, "continue", none, ⟨4, 1, 4⟩, 12⟩] ∧
      (scan "é1.continue").errors = (scan "é1.con").errors := by
  have hboundary : Text.isBoundary "é1.con*é".toList 7 = true := by decide +kernel
  have hcomplete : complete "é1.con*é" 7 = .ok ⟨4, ["const", "continue"]⟩ := by decide +kernel
  have htokens : (scan "é1.con").tokens =
      [⟨.number, "1", some (.integer 1), ⟨2, 1, 2⟩, 3⟩,
        ⟨.symbol .dot, ".", none, ⟨3, 1, 3⟩, 4⟩] ++
      [⟨.identifier, "con", none, ⟨4, 1, 4⟩, 7⟩] := by decide +kernel
  obtain ⟨front, needle, behind, completion, htext, hsize, hok, hstart, -, hword⟩ :=
    exists_completion "é1.con*é" 7 (.inl hboundary)
  obtain rfl := Except.ok.inj (hok.symm.trans hcomplete)
  have hsplit : "é1.".toList ++ "con*é".toList = front ++ (needle ++ behind) := htext
  obtain ⟨rfl, hrest⟩ := Text.append_inj_of_size hsplit (by rw [← hstart]; decide)
  have hneedle : "con".toList ++ "*é".toList = needle ++ behind := hrest
  rw [Text.size_append] at hsize
  obtain ⟨rfl, -⟩ := Text.append_inj_of_size hneedle (Nat.add_left_cancel (n := 4) hsize.symm)
  obtain ⟨-, -, hkeywords⟩ := hword _ _ htokens rfl (.inl rfl)
  exact ⟨hboundary, hcomplete, htokens, hkeywords .continue (by decide)⟩

/-! ## Commands behind white space -/

theorem Completion.isWordPart_of_mem_lastWord {cs : List Char} {c : Char} (h : c ∈ lastWord cs) :
    Text.isWordPart c = true :=
  List.all_eq_true.1 List.all_takeWhile c (List.mem_reverse.1 h)

theorem complete_utf8ByteSize (line : String) :
    complete line line.utf8ByteSize = .ok (.ofText line.toList) := by
  obtain ⟨before, behind, htext, hsize, hcomplete⟩ :=
    complete_eq_ok line (.inr (Nat.le_refl line.utf8ByteSize))
  have hsame : line.toList ++ [] = before ++ behind := by rw [← htext, List.append_nil]
  rw [Nat.min_self, ← Text.size_toList] at hsize
  rw [hcomplete, (Text.append_inj_of_size hsame hsize.symm).1]

/-- Behind white space a dot starts a command exactly if the white space has no space. -/
theorem Completion.isCommand_append {w n : List Char} (hw : ∀ c ∈ w, Text.isWhiteSpace c = true)
    (hdot : n.head? = some '.') (hn : ∀ c ∈ n, Text.isWhiteSpace c = false) :
    Text.trimStart (w ++ n) = n ∧ (isCommand (w ++ n) = true ↔ ' ' ∉ w) := by
  have hstop : ∀ c ∈ n.head?, Text.isWhiteSpace c = false := fun c hc => hn c (List.mem_of_head? hc)
  have htrim : Text.trimStart (w ++ n) = n := Text.dropWhile_run hw hstop
  have hspace : ' ' ∉ n := fun hmem => absurd (hn ' ' hmem) (by decide)
  refine ⟨htrim, ?_⟩
  rw [isCommand, htrim, hdot]
  simp [hspace]

/-- What is completed at the end of white space and the beginning of a command are the commands that
    start with it, provided that there is no space. Behind a space the last word of the line is
    completed, which does not reach back to the dot. -/
theorem complete_indented_iff {w n : List Char} (hw : ∀ c ∈ w, Text.isWhiteSpace c = true)
    (hdot : n.head? = some '.') (hn : ∀ c ∈ n, Text.isWhiteSpace c = false) :
    complete (String.ofList (w ++ n)) (Text.size (w ++ n)) =
        .ok ⟨Text.size w, [".help", ".load", ".exit"].filter (n.isPrefixOf ·.toList)⟩ ↔
      ' ' ∉ w := by
  obtain ⟨htrim, hcommand⟩ := Completion.isCommand_append hw hdot hn
  have hcomplete := complete_utf8ByteSize (String.ofList (w ++ n))
  rw [← Text.size_toList, String.toList_ofList] at hcomplete
  obtain ⟨front, needle, hsplit, hcases⟩ := Completion.exists_ofText (w ++ n)
  rw [hcomplete, ← hcommand]
  rcases hcases with ⟨hmode, hneedle, heq⟩ | ⟨hmode, hneedle, heq⟩
  · rw [htrim] at hneedle
    rw [hneedle] at hsplit heq
    rw [← List.append_cancel_right hsplit] at heq
    rw [heq, hmode]
    exact ⟨fun _ => rfl, fun _ => rfl⟩
  · -- the dot would be part of the last word
    rw [heq, hmode]
    refine ⟨fun hsame => ?_, fun h => absurd h (by simp)⟩
    have hsize : Text.size front = Text.size w :=
      congrArg Completion.start (Except.ok.inj hsame)
    obtain ⟨-, rfl⟩ := Text.append_inj_of_size hsplit hsize.symm
    rw [hneedle] at hdot
    have hpart := Completion.isWordPart_of_mem_lastWord (List.mem_of_head? hdot)
    exact absurd hpart (by decide)

/-- A tab and a character of three bytes. -/
theorem complete_indented_iff_tab :
    (∀ c ∈ ['\t', '\u3000'], Text.isWhiteSpace c = true) ∧
      (∀ c ∈ ['.', 'l'], Text.isWhiteSpace c = false) ∧
      complete "\t\u3000.l" 6 = .ok ⟨4, [".load"]⟩ := by
  have hw : ∀ c ∈ ['\t', '\u3000'], Text.isWhiteSpace c = true := by
    rw [List.forall_mem_cons, List.forall_mem_singleton]
    decide
  have hn : ∀ c ∈ ['.', 'l'], Text.isWhiteSpace c = false := by
    rw [List.forall_mem_cons, List.forall_mem_singleton]
    decide
  exact ⟨hw, hn, (complete_indented_iff hw rfl hn).2 (by decide)⟩

/-- Behind a space the command is not found, and its letter is completed to a keyword. -/
theorem complete_behind_space :
    (∀ c ∈ [' '], Text.isWhiteSpace c = true) ∧ (∀ c ∈ ['.', 'l'], Text.isWhiteSpace c = false) ∧
      complete " .l" 3 = .ok ⟨2, ["let"]⟩ ∧ complete " .l" 3 ≠ .ok ⟨1, [".load"]⟩ := by
  have hcomplete : complete " .l" 3 = .ok ⟨2, ["let"]⟩ := by decide +kernel
  rw [hcomplete, List.forall_mem_singleton, List.forall_mem_cons, List.forall_mem_singleton]
  decide

end Lexis
