import Lexis.Fault
import Lexis.Text.Blank
import Lexis.Text.Size
import Lexis.Token.Keyword

set_option autoImplicit false

/-! # Completion

What could be typed next at a place in a line: the commands that start like the line, if the line
starts with a dot and has no space, and else the keywords that start like the word before the
place. -/

namespace Lexis

/-- The commands of a session, in the order in which they are offered. -/
def commandNames : List String := [".help", ".load", ".exit"]

/-- What completion offers. -/
structure Completion where
  /-- The offset at which the text to be completed starts. -/
  start : Nat
  /-- The texts that can take its place. -/
  candidates : List String
deriving DecidableEq, Repr

namespace Completion

/-- The candidates that start with a text, in their order. -/
def startingWith (needle : List Char) (candidates : List String) : List String :=
  candidates.filter fun c => needle.isPrefixOf c.toList

/-- The end of a text from its last character that is no part of a word on. -/
def lastWord (cs : List Char) : List Char := (cs.reverse.takeWhile Text.isWordPart).reverse

/-- Whether a text before the place of completion is the beginning of a command. -/
def isCommand (before : List Char) : Bool :=
  (Text.trimStart before).head? = some '.' && !before.contains ' '

/-- Complete a text. -/
def ofText (before : List Char) : Completion :=
  if isCommand before then
    let needle := Text.trimStart before
    ⟨Text.size before - Text.size needle, startingWith needle commandNames⟩
  else
    let needle := lastWord before
    let start := Text.size before - Text.size needle
    if needle = [] then ⟨start, []⟩
    else ⟨start, startingWith needle (Keyword.all.map Keyword.spelling)⟩

end Completion

/-- Complete a line at an offset; offsets past the end count as the end. An offset inside a
    character is a fault. -/
def complete (line : String) (offset : Nat) : Except Fault Completion :=
  let cs := line.toList
  match Text.cut? cs (min offset (Text.size cs)) with
  | some (before, _) => .ok (.ofText before)
  | none => .error .slice

end Lexis
