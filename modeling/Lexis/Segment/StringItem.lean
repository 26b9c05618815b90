import Lexis.Text.Hex

set_option autoImplicit false

/-! # The inside of strings

The text between the quotes of a string is a sequence of items: plain characters and escapes. An
escape that means nothing is still an item, with an extent of its own (`StringItem.text`) and no
value, so that the string goes on behind it. `readItems` splits a text into items up to the quote
that closes it, and `readItems_text` says that nothing is lost on the way. -/

namespace Lexis

/-- A piece of the inside of a string. -/
inductive StringItem where
  /-- A character that stands for itself. -/
  | plain (c : Char)
  /-- A backslash and a character other than `u`. -/
  | escape (c : Char)
  /-- A backslash and a `u` that no brace follows. -/
  | bareUnicode
  /-- A backslash, a `u`, an opening brace and all hexadecimal digits behind it, with the closing
      brace if it comes next. -/
  | unicode (digits : List Char) (closed : Bool)
deriving DecidableEq, Repr

namespace StringItem

/-- The source text of an item. -/
def text : StringItem → List Char
  | plain c => [c]
  | escape c => ['\\', c]
  | bareUnicode => ['\\', 'u']
  | unicode digits closed =>
    '\\' :: 'u' :: '\x7b' :: (digits ++ if closed then ['\x7d'] else [])

/-- The characters that mean something behind a backslash, with what they stand for. -/
def escapes : List (Char × Char) :=
  [('n', '\n'), ('t', '\t'), ('r', '\r'), ('0', '\x00'), ('\\', '\\'), ('"', '"'), ('\'', '\'')]

/-- The character that an item stands for; `none` for an escape that means nothing. A code point is
    written with one to six digits. -/
def value? : StringItem → Option Char
  | plain c => some c
  | escape c => escapes.lookup c
  | bareUnicode => none
  | unicode digits closed =>
    if closed && 1 ≤ digits.length && digits.length ≤ 6 then Text.scalar? (Text.hexValue digits)
    else none

/-- How the inside of a string ends. -/
inductive Ending where
  /-- With a quote, which `rest` follows. -/
  | closed (rest : List Char)
  /-- With the text. -/
  | unclosed
  /-- With the text, a single backslash left over. -/
  | unclosedEscape
deriving DecidableEq, Repr

/-- The text from the ending on. -/
def Ending.text : Ending → List Char
  | closed rest => '"' :: rest
  | unclosed => []
  | unclosedEscape => ['\\']

/-- The item that starts with a backslash, given the text behind it, and what follows the item. -/
def readEscape (c : Char) (cs : List Char) : StringItem × List Char :=
  if c = 'u' then
    match cs with
    | '\x7b' :: ds =>
      match ds.dropWhile Char.isHexDigit with
      | '\x7d' :: rest => (unicode (ds.takeWhile Char.isHexDigit) true, rest)
      | rest => (unicode (ds.takeWhile Char.isHexDigit) false, rest)
    | rest => (bareUnicode, rest)
  else (escape c, cs)

theorem readEscape_text (c : Char) (cs : List Char) :
    (readEscape c cs).1.text ++ (readEscape c cs).2 = '\\' :: c :: cs := by
  unfold readEscape
  split
  · subst_vars
    split
    · next ds =>
        have hsplit := ds.takeWhile_append_dropWhile (p := Char.isHexDigit)
        split
        · next rest hrest => simp [text, ← hrest]
        · next rest _ => simp [text]
    · simp [text]
  · simp [text]

theorem length_text_pos (item : StringItem) : 0 < item.text.length := by
  cases item <;> simp [text]

theorem length_readEscape (c : Char) (cs : List Char) : (readEscape c cs).2.length ≤ cs.length := by
  have htext : 2 ≤ (readEscape c cs).1.text.length := by
    unfold readEscape
    repeat' split
    all_goals simp [text]
  have := congrArg List.length (readEscape_text c cs)
  simp only [List.length_append, List.length_cons] at this
  omega

/-- The items of a text up to the quote that closes it, and how it ends. -/
def readItems : List Char → List StringItem × Ending
  | [] => ([], .unclosed)
  | ['\\'] => ([], .unclosedEscape)
  | '"' :: rest => ([], .closed rest)
  | '\\' :: c :: cs =>
    let body := readItems (readEscape c cs).2
    ((readEscape c cs).1 :: body.1, body.2)
  | c :: cs =>
    let body := readItems cs
    (plain c :: body.1, body.2)
termination_by cs => cs.length
decreasing_by
  · have := length_readEscape c cs
    simp only [List.length_cons]
    omega
  · simp

/-- The source text of items in a row. -/
def textOf (items : List StringItem) : List Char := items.flatMap text

theorem readItems_text (cs : List Char) :
    textOf (readItems cs).1 ++ (readItems cs).2.text = cs := by
  fun_induction readItems cs with
  | case1 => rfl
  | case2 => rfl
  | case3 => rfl
  | case4 c cs body ih =>
      simp only [textOf, List.flatMap_cons, List.append_assoc] at ih ⊢
      rw [ih, readEscape_text]
  | case5 c cs _ _ _ body ih => simpa [textOf, text] using ih

/-- The text that items stand for: the values of those that have one. -/
def decode (items : List StringItem) : List Char := items.filterMap value?

end StringItem

end Lexis
