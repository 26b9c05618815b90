set_option autoImplicit false

/-! # Lines of input

The input of a session is read line by line. A line is ended by a line feed, or by a carriage return
and a line feed, or by the end of the input; `Line.split` takes a text apart into lines. -/

namespace Lexis.Repl

/-- What ends a line. -/
inductive LineEnd where
  | none
  | lf
  | crlf
deriving DecidableEq, Repr

/-- The characters of a line's end. -/
def LineEnd.text : LineEnd → List Char
  | none => []
  | lf => ['\n']
  | crlf => ['\r', '\n']

/-- A line of input. -/
structure Line where
  text : List Char
  ending : LineEnd
deriving DecidableEq, Repr

namespace Line

/-- A line as it was read. -/
def raw (l : Line) : List Char := l.text ++ l.ending.text

/-- The line that was read as `cs`, of which at most the last character is a line feed. -/
def ofRaw (cs : List Char) : Line :=
  match cs.reverse with
  | '\n' :: '\r' :: text => ⟨text.reverse, .crlf⟩
  | '\n' :: text => ⟨text.reverse, .lf⟩
  | text => ⟨text.reverse, .none⟩

/-- Take a list apart behind each element that satisfies `isEnd`. -/
def splitAfter {α : Type} (isEnd : α → Bool) : List α → List (List α)
  | [] => []
  | x :: xs =>
    if isEnd x then [x] :: splitAfter isEnd xs
    else
      match splitAfter isEnd xs with
      | [] => [[x]]
      | first :: rest => (x :: first) :: rest

/-- The lines of a text. -/
def split (cs : List Char) : List Line := (splitAfter (· = '\n') cs).map ofRaw

end Line

/-- All lines of an input up to its end, or up to the first line that is not UTF-8. -/
structure Input where
  lines : List Line
  /-- Whether the input breaks off in a line that is not UTF-8. -/
  isGarbled : Bool := false
deriving DecidableEq, Repr

namespace Input

/-- The input that is a text. -/
def ofText (cs : List Char) : Input := { lines := Line.split cs }

/-- The lines that were read as rows of bytes. -/
def ofRawLines : List (List UInt8) → Input
  | [] => { lines := [] }
  | bytes :: rest =>
    match String.fromUTF8? ⟨bytes.toArray⟩ with
    | some text =>
      let input := ofRawLines rest
      { input with lines := .ofRaw text.toList :: input.lines }
    | none => { lines := [], isGarbled := true }

/-- The input that is a row of bytes. -/
def ofBytes (bytes : ByteArray) : Input := ofRawLines (Line.splitAfter (· = 10) bytes.data.toList)

end Input

end Lexis.Repl
