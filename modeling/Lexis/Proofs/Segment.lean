import Lexis.Proofs.StringItem
import Lexis.Proofs.Symbol
import Lexis.Segment.Read

set_option autoImplicit false

/-! # Segments and what stands behind them

A segment can be told by what it is on its own (`Segment.WellFormed`) and by where it ends: nothing
behind it could still belong to it (`Segment.goesOn`, which looks at no more than two characters).
`endsBefore_read` says that reading takes such segments only, and `read_text_append` that a segment
with both properties is what reading takes, so the two conditions say everything there is to know
about `Segment.read`. -/

namespace Lexis

/-- A character with which nothing starts, neither blanks, strings, numbers, words nor symbols. -/
structure StartsNothing (c : Char) : Prop where
  not_blank : Text.isBlank c = false
  not_quote : c ≠ '"'
  not_digit : c.isDigit = false
  not_wordStart : Text.isWordStart c = false
  not_symbol : ∀ s : Symbol, s.spelling.head? ≠ some c

theorem StartsNothing.ne_slash {c : Char} (h : StartsNothing c) : c ≠ '/' := by
  rintro rfl
  exact h.not_symbol .slash rfl

namespace Segment

/-- What a segment has to be on its own. -/
def WellFormed : Segment → Prop
  | blank c => Text.isBlank c = true
  | lineComment body => '\n' ∉ body
  | blockComment body => ¬ ['*', '/'] <:+: body ++ ['*']
  | openComment body => ¬ ['*', '/'] <:+: body
  | symbol _ => True
  | word text => IsWord text
  | integer digits => IsDigits digits
  | decimal whole fraction => IsDigits whole ∧ IsDigits fraction
  | string items => StringItem.Row ['"'] items
  | openString items dangling => StringItem.Row (if dangling then ['\\'] else []) items
  | unexpected c => StartsNothing c

/-- Whether the text behind a segment would still belong to it, or make it something else. -/
def goesOn : Segment → List Char → Bool
  | lineComment _, c :: _ => c ≠ '\n'
  | openComment _, _ :: _ => true
  | openString _ _, _ :: _ => true
  | symbol s, c :: _ => s.goesOnWith c || (s = .slash && (c = '/' || c = '*'))
  | word _, c :: _ => Text.isWordPart c
  | integer _, c :: rest => c.isDigit || (c = '.' && rest.head?.any Char.isDigit)
  | decimal _ _, c :: _ => c.isDigit
  | _, _ => false

/-- A segment that is complete where `rest` follows it. -/
structure EndsBefore (s : Segment) (rest : List Char) : Prop where
  wellFormed : s.WellFormed
  complete : s.goesOn rest = false

@[simp] theorem goesOn_nil (s : Segment) : s.goesOn [] = false := by cases s <;> rfl

theorem goesOn_take (s : Segment) (cs : List Char) : s.goesOn (cs.take 2) = s.goesOn cs := by
  rcases cs with _ | ⟨c, _ | ⟨d, cs⟩⟩
  · rfl
  · rfl
  · cases s <;> rfl

theorem goesOn_congr {s : Segment} {cs ds : List Char} (h : cs.take 2 = ds.take 2) :
    s.goesOn cs = s.goesOn ds := by
  rw [← goesOn_take, h, goesOn_take]

/-- What stands behind a complete segment starts with a character that does not go on with it. -/
theorem EndsBefore.exists_cons {s : Segment} {rest : List Char} {d : Char} (h : s.EndsBefore rest)
    (hd : d ∈ rest.head?) : ∃ tail, rest = d :: tail ∧ s.goesOn (d :: tail) = false := by
  obtain ⟨tail, rfl⟩ := List.head?_eq_some_iff.1 hd
  exact ⟨tail, rfl, h.complete⟩

/-- Whether a segment runs to the end of the text because it is not closed. -/
def isOpen : Segment → Bool
  | openComment _ | openString _ _ => true
  | _ => false

/-- Only the last segment can be open, and only at the end of the text. -/
theorem EndsBefore.eq_nil_of_isOpen {s : Segment} {rest : List Char} (h : s.EndsBefore rest)
    (hopen : s.isOpen = true) : rest = [] := by
  have hcomplete := h.complete
  cases rest with
  | nil => rfl
  | cons c rest => cases s <;> simp_all [isOpen, goesOn]

/-! ## The end of a comment -/

theorem splitAtCommentEnd?_eq_none_iff {cs : List Char} :
    splitAtCommentEnd? cs = none ↔ ¬ ['*', '/'] <:+: cs := by
  fun_induction splitAtCommentEnd? cs with
  | case1 => simp
  | case2 rest => simpa using ⟨[], rest, rfl⟩
  | case3 c cs hopen ih =>
      rw [Option.map_eq_none_iff, ih, List.infix_cons_iff, not_or]
      refine ⟨fun h => ⟨fun hstart => ?_, h⟩, And.right⟩
      obtain ⟨rest, hrest⟩ := hstart
      obtain ⟨rfl, htail⟩ := List.cons.inj hrest
      exact hopen rest rfl htail.symm

theorem splitAtCommentEnd?_append {body : List Char} (rest : List Char)
    (h : ¬ ['*', '/'] <:+: body ++ ['*']) :
    splitAtCommentEnd? (body ++ '*' :: '/' :: rest) = some (body, rest) := by
  induction body with
  | nil => rfl
  | cons c body ih =>
      rw [List.cons_append, List.infix_cons_iff, not_or] at h
      have hopen : ∀ tail, c = '*' → body ++ '*' :: '/' :: rest = '/' :: tail → False := by
        rintro tail rfl htail
        cases body with
        | nil => exact absurd (List.cons.inj htail).1 (by decide)
        | cons d body =>
            obtain ⟨rfl, -⟩ := List.cons.inj htail
            exact h.1 ⟨body ++ ['*'], rfl⟩
      rw [List.cons_append, splitAtCommentEnd?.eq_3 _ _ hopen, ih h.2]
      rfl

theorem not_infix_of_splitAtCommentEnd? {cs body rest : List Char}
    (h : splitAtCommentEnd? cs = some (body, rest)) : ¬ ['*', '/'] <:+: body ++ ['*'] := by
  fun_induction splitAtCommentEnd? cs generalizing body rest with
  | case1 => simp at h
  | case2 tail =>
      obtain ⟨rfl, rfl⟩ : [] = body ∧ tail = rest := by simpa using h
      rw [← splitAtCommentEnd?_eq_none_iff]
      rfl
  | case3 c cs hopen ih =>
      obtain ⟨⟨body', rest'⟩, hsplit, heq⟩ := Option.map_eq_some_iff.1 h
      obtain ⟨rfl, rfl⟩ : c :: body' = body ∧ rest' = rest := by simpa using heq
      rw [List.cons_append, List.infix_cons_iff, not_or]
      refine ⟨fun hstart => ?_, ih hsplit⟩
      -- the text goes on as `body'` does, and there the comment is still open
      obtain ⟨tail, htail⟩ := hstart
      obtain ⟨rfl, hslash⟩ := List.cons.inj htail
      cases body' with
      | nil => exact absurd (List.cons.inj hslash).1 (by decide)
      | cons d body' =>
          obtain ⟨rfl, -⟩ := List.cons.inj hslash
          exact hopen _ rfl (eq_of_splitAtCommentEnd? hsplit).symm

/-! ## Which segment a first character starts -/

theorem read_of_isBlank {c : Char} {cs : List Char} (h : Text.isBlank c = true) :
    read c cs = (blank c, cs) := by
  simp [read, h]

theorem read_quote (cs : List Char) : read '"' cs = readString cs := rfl

theorem read_of_isDigit {c : Char} {cs : List Char} (h : c.isDigit = true) :
    read c cs = readNumber (c :: cs) := by
  have hquote : c ≠ '"' := Text.ne_of_class h (by decide)
  simp [read, Text.isBlank_of_isDigit h, hquote, h]

theorem read_of_isWordStart {c : Char} {cs : List Char} (h : Text.isWordStart c = true) :
    read c cs = readWord (c :: cs) := by
  have hquote : c ≠ '"' := Text.ne_of_class h (by decide)
  simp [read, Text.isBlank_of_isWordStart h, hquote, Text.isDigit_of_isWordStart h, h]

theorem read_slash_slash (cs : List Char) : read '/' ('/' :: cs) = readLineComment cs := rfl

theorem read_slash_star (cs : List Char) : read '/' ('*' :: cs) = readBlockComment cs := rfl

theorem read_of_startsOther {c : Char} {cs : List Char} (hblank : Text.isBlank c = false)
    (hquote : c ≠ '"') (hdigit : c.isDigit = false) (hword : Text.isWordStart c = false)
    (hcomment : c = '/' → ∀ d ∈ cs.head?, d ≠ '/' ∧ d ≠ '*') : read c cs = readSymbol c cs := by
  have hslash : ¬ (c = '/' ∧ cs.head? = some '/') := fun h => (hcomment h.1 '/' h.2).1 rfl
  have hstar : ¬ (c = '/' ∧ cs.head? = some '*') := fun h => (hcomment h.1 '*' h.2).2 rfl
  simp [read, hblank, hquote, hdigit, hword, hslash, hstar]

/-- Symbols start with characters of their own. -/
theorem class_of_symbol {s : Symbol} {c : Char} {tail : List Char} (h : s.spelling = c :: tail) :
    Text.isBlank c = false ∧ c ≠ '"' ∧ c.isDigit = false ∧ Text.isWordStart c = false := by
  cases s <;> (obtain ⟨rfl, -⟩ := List.cons.inj h; decide)

/-! ## What reading takes -/

theorem endsBefore_readNumber (cs : List Char) (hne : cs.takeWhile Char.isDigit ≠ []) :
    (readNumber cs).1.EndsBefore (readNumber cs).2 := by
  have hrun (cs : List Char) (h : cs.takeWhile Char.isDigit ≠ []) :
      IsDigits (cs.takeWhile Char.isDigit) :=
    ⟨h, fun d hd => List.all_eq_true.1 List.all_takeWhile d hd⟩
  unfold readNumber
  split
  · next rest hrest =>
      split
      · next hdigit =>
          refine ⟨⟨hrun cs hne, hrun rest ?_⟩, ?_⟩
          · cases rest with
            | nil => simp at hdigit
            | cons d rest =>
                have hd : d.isDigit = true := by simpa using hdigit
                simp [hd]
          · rcases Text.dropWhile_cases Char.isDigit rest with htail | ⟨d, tail, htail, hd⟩
            · rw [htail]
              rfl
            · rw [htail]
              exact hd
      · next hdigit => exact ⟨hrun cs hne, by simpa [goesOn] using hdigit⟩
  · next rest hpoint =>
      refine ⟨hrun cs hne, ?_⟩
      rcases Text.dropWhile_cases Char.isDigit cs with htail | ⟨d, tail, htail, hd⟩
      · rw [htail]
        rfl
      · have hdot : d ≠ '.' := fun h => hpoint tail (by rw [htail, h])
        simp [htail, goesOn, hd, hdot]

theorem endsBefore_readString (cs : List Char) :
    (readString cs).1.EndsBefore (readString cs).2 := by
  have hrow := StringItem.row_readItems cs
  unfold readString
  split
  · next items rest heq =>
      rw [heq] at hrow
      have hrow : StringItem.Row ('"' :: rest) items := hrow
      exact ⟨hrow.congr rfl, rfl⟩
  · next items heq =>
      rw [heq] at hrow
      exact ⟨hrow, rfl⟩
  · next items heq =>
      rw [heq] at hrow
      exact ⟨hrow, rfl⟩

theorem endsBefore_readBlockComment (cs : List Char) :
    (readBlockComment cs).1.EndsBefore (readBlockComment cs).2 := by
  unfold readBlockComment
  split
  · next h => exact ⟨not_infix_of_splitAtCommentEnd? h, rfl⟩
  · next h => exact ⟨splitAtCommentEnd?_eq_none_iff.1 h, rfl⟩

theorem endsBefore_readLineComment (cs : List Char) :
    (readLineComment cs).1.EndsBefore (readLineComment cs).2 := by
  refine ⟨fun hmem => ?_, ?_⟩
  · exact absurd (List.all_eq_true.1 List.all_takeWhile _ hmem) (by simp)
  · unfold readLineComment
    rcases Text.dropWhile_cases (· ≠ '\n') cs with htail | ⟨d, tail, htail, hd⟩
    · rw [htail]
      rfl
    · rw [htail]
      exact hd

theorem endsBefore_readWord {c : Char} {cs : List Char} (h : Text.isWordStart c = true) :
    (readWord (c :: cs)).1.EndsBefore (readWord (c :: cs)).2 := by
  have hpart := Text.isWordPart_of_isWordStart h
  constructor
  · refine ⟨c, cs.takeWhile Text.isWordPart, List.takeWhile_cons_of_pos hpart, h, fun d hd => ?_⟩
    exact List.all_eq_true.1 List.all_takeWhile d hd
  · unfold readWord
    rcases Text.dropWhile_cases Text.isWordPart (c :: cs) with htail | ⟨d, tail, htail, hd⟩
    · rw [htail]
      rfl
    · rw [htail]
      exact hd

theorem endsBefore_readSymbol {c : Char} {cs : List Char} (hblank : Text.isBlank c = false)
    (hquote : c ≠ '"') (hdigit : c.isDigit = false) (hword : Text.isWordStart c = false)
    (hcomment : c = '/' → ∀ d ∈ cs.head?, d ≠ '/' ∧ d ≠ '*') :
    (readSymbol c cs).1.EndsBefore (readSymbol c cs).2 := by
  unfold readSymbol
  split
  · next s hread =>
      refine ⟨trivial, ?_⟩
      have hsplit := Symbol.spelling_append_drop hread
      have hstop := hread
      rw [← hsplit, Symbol.read?_spelling_append_iff] at hstop
      cases htail : (c :: cs).drop s.spelling.length with
      | nil => rfl
      | cons d tail =>
          rw [htail] at hsplit hstop
          have hgo : s.goesOnWith d = false := hstop d rfl
          by_cases hs : s = .slash
          · subst hs
            obtain ⟨rfl, rfl⟩ : '/' = c ∧ d :: tail = cs := by simpa [Symbol.spelling] using hsplit
            have hd := hcomment rfl d rfl
            simp [goesOn, hgo, hd]
          · simp [goesOn, hgo, hs]
  · next hread =>
      have hno := Symbol.read?_cons_eq_none_iff.1 hread
      exact ⟨⟨hblank, hquote, hdigit, hword, hno⟩, rfl⟩

theorem endsBefore_read (c : Char) (cs : List Char) :
    (read c cs).1.EndsBefore (read c cs).2 := by
  unfold read
  split
  · next hblank => exact ⟨hblank, rfl⟩
  split
  · exact endsBefore_readString cs
  split
  · next hdigit => exact endsBefore_readNumber (c :: cs) (by simp [hdigit])
  split
  · next hword => exact endsBefore_readWord hword
  split
  · exact endsBefore_readLineComment cs.tail
  split
  · exact endsBefore_readBlockComment cs.tail
  · next hblank hquote hdigit hword hslash hstar =>
      refine endsBefore_readSymbol (Bool.eq_false_iff.2 hblank) hquote (Bool.eq_false_iff.2 hdigit)
        (Bool.eq_false_iff.2 hword) fun hc d hd => ⟨?_, ?_⟩
      · rintro rfl
        exact hslash ⟨hc, hd⟩
      · rintro rfl
        exact hstar ⟨hc, hd⟩

/-! ## What is read -/

theorem readLineComment_append {body rest : List Char} (h : (lineComment body).EndsBefore rest) :
    readLineComment (body ++ rest) = (lineComment body, rest) := by
  have hbody : ∀ d ∈ body, decide (d ≠ '\n') = true := by
    rintro d hd
    rw [decide_eq_true_eq]
    rintro rfl
    exact h.wellFormed hd
  have hstop : ∀ d ∈ rest.head?, decide (d ≠ '\n') = false := by
    intro d hd
    obtain ⟨tail, rfl, hgo⟩ := h.exists_cons hd
    exact hgo
  rw [readLineComment, Text.takeWhile_run hbody hstop, Text.dropWhile_run hbody hstop]

theorem readBlockComment_closed {body : List Char} (h : (blockComment body).WellFormed)
    (rest : List Char) :
    readBlockComment (body ++ '*' :: '/' :: rest) = (blockComment body, rest) := by
  rw [readBlockComment, splitAtCommentEnd?_append rest h]

theorem readBlockComment_open {body : List Char} (h : (openComment body).WellFormed) :
    readBlockComment body = (openComment body, []) := by
  rw [readBlockComment, splitAtCommentEnd?_eq_none_iff.2 h]

theorem readWord_append {text rest : List Char} (h : (word text).EndsBefore rest) :
    readWord (text ++ rest) = (word text, rest) := by
  have hword : IsWord text := h.wellFormed
  have hparts := hword.forall_isWordPart
  have hstop : ∀ d ∈ rest.head?, Text.isWordPart d = false := by
    intro d hd
    obtain ⟨tail, rfl, hgo⟩ := h.exists_cons hd
    exact hgo
  rw [readWord, Text.takeWhile_run hparts hstop, Text.dropWhile_run hparts hstop]

theorem readNumber_integer {digits rest : List Char} (h : (integer digits).EndsBefore rest) :
    readNumber (digits ++ rest) = (integer digits, rest) := by
  have hdigits : IsDigits digits := h.wellFormed
  have hstop : ∀ d ∈ rest.head?, d.isDigit = false ∧
      (d = '.' → rest.tail.head?.any Char.isDigit = false) := by
    intro d hd
    obtain ⟨tail, rfl, hgo⟩ := h.exists_cons hd
    simpa [goesOn] using hgo
  have hdigit := fun d hd => (hstop d hd).1
  simp only [readNumber, Text.takeWhile_run hdigits.2 hdigit, Text.dropWhile_run hdigits.2 hdigit]
  split
  · next tail =>
      have htail := (hstop '.' rfl).2 rfl
      rw [List.tail_cons] at htail
      simp [htail]
  · rfl

theorem readNumber_decimal {whole fraction rest : List Char}
    (h : (decimal whole fraction).EndsBefore rest) :
    readNumber (whole ++ '.' :: (fraction ++ rest)) = (decimal whole fraction, rest) := by
  obtain ⟨hwhole, hfraction⟩ : IsDigits whole ∧ IsDigits fraction := h.wellFormed
  have hpoint : ∀ d ∈ ('.' :: (fraction ++ rest)).head?, d.isDigit = false := by simp
  have hstop : ∀ d ∈ rest.head?, d.isDigit = false := by
    intro d hd
    obtain ⟨tail, rfl, hgo⟩ := h.exists_cons hd
    exact hgo
  have hfirst : (fraction ++ rest).head?.any Char.isDigit = true := by
    obtain ⟨d, tail, rfl, hd, -⟩ := hfraction.exists_cons
    simp [hd]
  simp only [readNumber, Text.takeWhile_run hwhole.2 hpoint, Text.dropWhile_run hwhole.2 hpoint,
    hfirst, if_true, Text.takeWhile_run hfraction.2 hstop, Text.dropWhile_run hfraction.2 hstop]

theorem readString_string {items : List StringItem} (h : (string items).WellFormed)
    (rest : List Char) :
    readString (StringItem.textOf items ++ '"' :: rest) = (string items, rest) := by
  have hrow : StringItem.Row ['"'] items := h
  have hread := StringItem.readItems_textOf_append (.closed rest) (hrow.congr rfl)
  rw [StringItem.Ending.text] at hread
  simp [readString, hread]

theorem readString_openString {items : List StringItem} {dangling : Bool}
    (h : (openString items dangling).WellFormed) :
    readString (StringItem.textOf items ++ if dangling then ['\\'] else []) =
      (openString items dangling, []) := by
  cases dangling with
  | false =>
      have hread := StringItem.readItems_textOf_append .unclosed h
      rw [StringItem.Ending.text] at hread
      simp only [readString, Bool.false_eq_true, if_false, hread]
  | true =>
      have hread := StringItem.readItems_textOf_append .unclosedEscape h
      rw [StringItem.Ending.text] at hread
      simp only [readString, if_true, hread]

theorem EndsBefore.symbol_stop {s : Symbol} {rest : List Char} (h : (symbol s).EndsBefore rest) :
    ∀ d ∈ rest.head?, s.goesOnWith d = false ∧ (s = .slash → d ≠ '/' ∧ d ≠ '*') := by
  intro d hd
  obtain ⟨tail, rfl, hgo⟩ := h.exists_cons hd
  simpa [goesOn] using hgo

/-- A symbol is not the start of a comment: of the two that start with a slash, one is told by the
    character behind it and the other goes on with its own second one. -/
theorem EndsBefore.symbol_opens_no_comment {s : Symbol} {tail rest : List Char}
    (h : (symbol s).EndsBefore rest) (hspelling : s.spelling = '/' :: tail) :
    ∀ d ∈ (tail ++ rest).head?, d ≠ '/' ∧ d ≠ '*' := by
  intro d hd
  rcases Symbol.eq_of_head?_eq_slash (by rw [hspelling]; rfl) with rfl | rfl
  · obtain rfl : tail = [] := by simpa [Symbol.spelling] using hspelling.symm
    exact (h.symbol_stop d hd).2 rfl
  · obtain rfl : tail = ['='] := by simpa [Symbol.spelling] using hspelling.symm
    obtain rfl : '=' = d := by simpa using hd
    decide

theorem read_symbol {s : Symbol} {c : Char} {tail rest : List Char}
    (h : (symbol s).EndsBefore rest) (hspelling : s.spelling = c :: tail) :
    read c (tail ++ rest) = (symbol s, rest) := by
  obtain ⟨hblank, hquote, hdigit, hword⟩ := class_of_symbol hspelling
  have hcomment : c = '/' → ∀ d ∈ (tail ++ rest).head?, d ≠ '/' ∧ d ≠ '*' := by
    rintro rfl
    exact h.symbol_opens_no_comment hspelling
  have hread : Symbol.read? (c :: (tail ++ rest)) = some s := by
    rw [← List.cons_append, ← hspelling]
    exact Symbol.read?_spelling_append_iff.2 fun d hd => (h.symbol_stop d hd).1
  rw [read_of_startsOther hblank hquote hdigit hword hcomment, readSymbol, hread]
  simp [hspelling]

theorem read_of_startsNothing {c : Char} {cs : List Char} (h : StartsNothing c) :
    read c cs = (unexpected c, cs) := by
  rw [read_of_startsOther h.not_blank h.not_quote h.not_digit h.not_wordStart
    fun hc => absurd hc h.ne_slash, readSymbol, Symbol.read?_cons_eq_none_iff.2 h.not_symbol]

/-- A segment that ends before `rest` is what is read there. -/
theorem read_text_append {s : Segment} {rest cs : List Char} {c : Char} (h : s.EndsBefore rest)
    (htext : s.text ++ rest = c :: cs) : read c cs = (s, rest) := by
  have hwell := h.wellFormed
  cases s with
  | blank b =>
      obtain ⟨rfl, rfl⟩ := List.cons.inj htext
      exact read_of_isBlank hwell
  | lineComment body =>
      obtain ⟨rfl, rfl⟩ := List.cons.inj htext
      exact readLineComment_append h
  | blockComment body =>
      obtain ⟨rfl, rfl⟩ := List.cons.inj htext
      show readBlockComment (body ++ ['*', '/'] ++ rest) = _
      rw [List.append_assoc]
      exact readBlockComment_closed hwell rest
  | openComment body =>
      obtain ⟨rfl, rfl⟩ := List.cons.inj htext
      obtain rfl : rest = [] := h.eq_nil_of_isOpen rfl
      show readBlockComment (body ++ []) = _
      rw [List.append_nil]
      exact readBlockComment_open hwell
  | symbol s =>
      obtain ⟨d, tail, hspelling⟩ := List.exists_cons_of_ne_nil s.spelling_ne_nil
      rw [text, hspelling] at htext
      obtain ⟨rfl, rfl⟩ := List.cons.inj htext
      exact read_symbol h hspelling
  | word text =>
      have hread := readWord_append h
      obtain ⟨d, tail, rfl, hd, -⟩ : IsWord text := hwell
      obtain ⟨rfl, rfl⟩ := List.cons.inj htext
      rw [read_of_isWordStart hd]
      exact hread
  | integer digits =>
      have hread := readNumber_integer h
      obtain ⟨d, tail, rfl, hd, -⟩ : ∃ d tail, digits = d :: tail ∧ _ := hwell.exists_cons
      obtain ⟨rfl, rfl⟩ := List.cons.inj htext
      rw [read_of_isDigit hd]
      exact hread
  | decimal whole fraction =>
      have hread := readNumber_decimal h
      obtain ⟨d, tail, rfl, hd, -⟩ : ∃ d tail, whole = d :: tail ∧ _ := hwell.1.exists_cons
      obtain ⟨rfl, rfl⟩ := List.cons.inj htext
      rw [read_of_isDigit hd]
      simpa using hread
  | string items =>
      obtain ⟨rfl, rfl⟩ := List.cons.inj htext
      rw [read_quote, List.append_eq, List.append_assoc]
      exact readString_string hwell rest
  | openString items dangling =>
      obtain ⟨rfl, rfl⟩ := List.cons.inj htext
      obtain rfl : rest = [] := h.eq_nil_of_isOpen rfl
      rw [read_quote, List.append_eq, List.append_nil]
      exact readString_openString hwell
  | unexpected d =>
      obtain ⟨rfl, rfl⟩ := List.cons.inj htext
      exact read_of_startsNothing hwell

end Segment

end Lexis
