set_option autoImplicit false

/-! # Symbols

The tokens with one fixed spelling: punctuation and operators. Several spellings start another one
(`<`, `<=`, `<<`, `<<=`); `Symbol.all` lists every symbol before those that start it, so the first
entry that starts a text is the longest symbol that does. -/

namespace Lexis

/-- A punctuation mark or an operator. -/
inductive Symbol where
  | leftParen | rightParen | leftBracket | rightBracket | leftBrace | rightBrace
  | dot | comma | semicolon | colon | «at» | dollar | hash | pipe
  | percent | plus | minus | star | slash | slashEqual | bang | bangEqual | equal | equalEqual
  | less | lessEqual | leftShift | leftShiftEqual
  | greater | greaterEqual | rightShift | rightShiftEqual
  | question | questionQuestion | questionQuestionEqual
deriving DecidableEq, Repr

namespace Symbol

/-- The text of a symbol. -/
def spelling : Symbol → List Char
  | leftParen => ['(']
  | rightParen => [')']
  | leftBracket => ['[']
  | rightBracket => [']']
  | leftBrace => ['\x7b']
  | rightBrace => ['\x7d']
  | dot => ['.']
  | comma => [',']
  | semicolon => [';']
  | colon => [':']
  | «at» => ['@']
  | dollar => ['$']
  | hash => ['#']
  | pipe => ['|']
  | percent => ['%']
  | plus => ['+']
  | minus => ['-']
  | star => ['*']
  | slash => ['/']
  | slashEqual => ['/', '=']
  | bang => ['!']
  | bangEqual => ['!', '=']
  | equal => ['=']
  | equalEqual => ['=', '=']
  | less => ['<']
  | lessEqual => ['<', '=']
  | leftShift => ['<', '<']
  | leftShiftEqual => ['<', '<', '=']
  | greater => ['>']
  | greaterEqual => ['>', '=']
  | rightShift => ['>', '>']
  | rightShiftEqual => ['>', '>', '=']
  | question => ['?']
  | questionQuestion => ['?', '?']
  | questionQuestionEqual => ['?', '?', '=']

/-- The name under which a symbol is listed. -/
def name : Symbol → String
  | leftParen => "LeftParen"
  | rightParen => "RightParen"
  | leftBracket => "LeftBracket"
  | rightBracket => "RightBracket"
  | leftBrace => "LeftBrace"
  | rightBrace => "RightBrace"
  | dot => "Dot"
  | comma => "Comma"
  | semicolon => "Semicolon"
  | colon => "Colon"
  | «at» => "At"
  | dollar => "Dollar"
  | hash => "Hash"
  | pipe => "Pipe"
  | percent => "Percent"
  | plus => "Plus"
  | minus => "Minus"
  | star => "Star"
  | slash => "Slash"
  | slashEqual => "SlashEqual"
  | bang => "Bang"
  | bangEqual => "BangEqual"
  | equal => "Equal"
  | equalEqual => "EqualEqual"
  | less => "Less"
  | lessEqual => "LessEqual"
  | leftShift => "LeftShift"
  | leftShiftEqual => "LeftShiftEqual"
  | greater => "Greater"
  | greaterEqual => "GreaterEqual"
  | rightShift => "RightShift"
  | rightShiftEqual => "RightShiftEqual"
  | question => "Question"
  | questionQuestion => "QuestionQuestion"
  | questionQuestionEqual => "QuestionQuestionEqual"

/-- Every symbol, each before those whose spelling starts its own. -/
def all : List Symbol :=
  [leftParen, rightParen, leftBracket, rightBracket, leftBrace, rightBrace, dot, comma, semicolon,
   colon, «at», dollar, hash, pipe, percent, plus, minus, star, slashEqual, slash, bangEqual, bang,
   equalEqual, equal, leftShiftEqual, leftShift, lessEqual, less, rightShiftEqual, rightShift,
   greaterEqual, greater, questionQuestionEqual, questionQuestion, question]

theorem mem_all (s : Symbol) : s ∈ all := by cases s <;> decide

/-- Whether a symbol computes, compares or assigns; the others are punctuation. -/
def isOperator : Symbol → Bool
  | leftParen | rightParen | leftBracket | rightBracket | leftBrace | rightBrace
  | dot | comma | semicolon | colon | «at» | dollar | hash | pipe => false
  | _ => true

/-- The longest symbol that starts a text. -/
def read? (cs : List Char) : Option Symbol := all.find? fun s => s.spelling.isPrefixOf cs

theorem spelling_ne_nil (s : Symbol) : s.spelling ≠ [] := by cases s <;> simp [spelling]

theorem spelling_append_drop {cs : List Char} {s : Symbol} (h : read? cs = some s) :
    s.spelling ++ cs.drop s.spelling.length = cs := by
  have hp : s.spelling.isPrefixOf cs = true := by simpa using List.find?_some h
  obtain ⟨rest, rfl⟩ := List.isPrefixOf_iff_prefix.1 hp
  simp

end Symbol

end Lexis
