import Lexis.Segment.Basic
import Lexis.Text.Blank

set_option autoImplicit false

/-! # Reading segments

`Segment.read` takes the segment at the start of a text, as long as it can be, and leaves the rest;
`text_append_read` says that the two make up the text. `Segment.readAll` reads a text to its end. -/

namespace Lexis.Segment

/-! ## Comments -/

/-- The text before the first star-slash and the text behind it. -/
def splitAtCommentEnd? : List Char → Option (List Char × List Char)
  | [] => none
  | '*' :: '/' :: rest => some ([], rest)
  | c :: cs => (splitAtCommentEnd? cs).map fun (body, rest) => (c :: body, rest)

theorem eq_of_splitAtCommentEnd? {cs body rest : List Char}
    (h : splitAtCommentEnd? cs = some (body, rest)) : body ++ '*' :: '/' :: rest = cs := by
  fun_induction splitAtCommentEnd? cs generalizing body rest with
  | case1 => simp at h
  | case2 rest' => simp_all
  | case3 c cs _ ih =>
      obtain ⟨⟨body', rest'⟩, hsplit, heq⟩ := Option.map_eq_some_iff.1 h
      simp only [Prod.mk.injEq] at heq
      obtain ⟨rfl, rfl⟩ := heq
      simp [ih hsplit]

/-- The comment that starts with slash-star, given the text behind that. -/
def readBlockComment (cs : List Char) : Segment × List Char :=
  match splitAtCommentEnd? cs with
  | some (body, rest) => (blockComment body, rest)
  | none => (openComment cs, [])

/-- The comment that starts with two slashes, given the text behind them. -/
def readLineComment (cs : List Char) : Segment × List Char :=
  (lineComment (cs.takeWhile (· ≠ '\n')), cs.dropWhile (· ≠ '\n'))

/-! ## Words, numbers and strings -/

/-- The word at the start of a text. -/
def readWord (cs : List Char) : Segment × List Char :=
  (word (cs.takeWhile Text.isWordPart), cs.dropWhile Text.isWordPart)

/-- The number at the start of a text. A point belongs to it only if a digit follows. -/
def readNumber (cs : List Char) : Segment × List Char :=
  let digits := cs.takeWhile Char.isDigit
  match cs.dropWhile Char.isDigit with
  | '.' :: rest =>
    if (rest.head?.any Char.isDigit) = true then
      (decimal digits (rest.takeWhile Char.isDigit), rest.dropWhile Char.isDigit)
    else (integer digits, '.' :: rest)
  | rest => (integer digits, rest)

/-- The string that starts with a quote, given the text behind that. -/
def readString (cs : List Char) : Segment × List Char :=
  match StringItem.readItems cs with
  | (items, .closed rest) => (string items, rest)
  | (items, .unclosed) => (openString items false, [])
  | (items, .unclosedEscape) => (openString items true, [])

/-! ## Segments -/

/-- The symbol at the start of a text, or a character that starts nothing. -/
def readSymbol (c : Char) (cs : List Char) : Segment × List Char :=
  match Symbol.read? (c :: cs) with
  | some s => (symbol s, (c :: cs).drop s.spelling.length)
  | none => (unexpected c, cs)

/-- The segment at the start of a text that is not empty, and the rest of the text. -/
def read (c : Char) (cs : List Char) : Segment × List Char :=
  if Text.isBlank c then (blank c, cs)
  else if c = '"' then readString cs
  else if c.isDigit then readNumber (c :: cs)
  else if Text.isWordStart c then readWord (c :: cs)
  else if c = '/' ∧ cs.head? = some '/' then readLineComment cs.tail
  else if c = '/' ∧ cs.head? = some '*' then readBlockComment cs.tail
  else readSymbol c cs

theorem text_append_readNumber (cs : List Char) :
    (readNumber cs).1.text ++ (readNumber cs).2 = cs := by
  unfold readNumber
  have hsplit := cs.takeWhile_append_dropWhile (p := Char.isDigit)
  simp only
  split
  · next rest hrest =>
      rw [hrest] at hsplit
      split <;> simp [text, hsplit]
  · simp [text]

theorem text_append_readString (cs : List Char) :
    (readString cs).1.text ++ (readString cs).2 = '"' :: cs := by
  have htext := StringItem.readItems_text cs
  unfold readString
  split <;> next heq => simpa [heq, text, StringItem.Ending.text] using htext

theorem text_append_readBlockComment (cs : List Char) :
    (readBlockComment cs).1.text ++ (readBlockComment cs).2 = '/' :: '*' :: cs := by
  unfold readBlockComment
  split
  · next h => simp [text, eq_of_splitAtCommentEnd? h]
  · simp [text]

theorem text_append_readSymbol (c : Char) (cs : List Char) :
    (readSymbol c cs).1.text ++ (readSymbol c cs).2 = c :: cs := by
  unfold readSymbol
  split
  · next h => exact Symbol.spelling_append_drop h
  · rfl

/-- Nothing is lost in reading. -/
theorem text_append_read (c : Char) (cs : List Char) :
    (read c cs).1.text ++ (read c cs).2 = c :: cs := by
  unfold read
  split
  · rfl
  split
  · next h => rw [h]; exact text_append_readString cs
  split
  · exact text_append_readNumber (c :: cs)
  split
  · exact List.takeWhile_append_dropWhile
  split
  · next h =>
      obtain ⟨rest, rfl⟩ := List.head?_eq_some_iff.1 h.2
      simp [h.1, readLineComment, text]
  split
  · next h =>
      obtain ⟨rest, rfl⟩ := List.head?_eq_some_iff.1 h.2
      simpa [h.1] using text_append_readBlockComment rest
  · exact text_append_readSymbol c cs

/-- Every segment that is read has text, so reading moves on. -/
theorem length_read (c : Char) (cs : List Char) : (read c cs).2.length ≤ cs.length := by
  have hpos : (read c cs).1.text ≠ [] := by
    unfold read readString readNumber readWord readLineComment readBlockComment readSymbol
    intro h
    repeat' split at h
    all_goals simp_all [text, Symbol.spelling_ne_nil, Text.isWordPart_of_isWordStart]
  have htext := congrArg List.length (text_append_read c cs)
  have := List.length_pos_iff.2 hpos
  simp only [List.length_append, List.length_cons] at htext
  omega

/-- The segments of a text. -/
def readAll : List Char → List Segment
  | [] => []
  | c :: cs =>
    let step := read c cs
    step.1 :: readAll step.2
termination_by cs => cs.length
decreasing_by
  have := length_read c cs
  simp only [List.length_cons]
  omega

end Lexis.Segment
