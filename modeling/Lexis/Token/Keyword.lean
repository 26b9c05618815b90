set_option autoImplicit false

/-! # Keywords

The reserved words. `Keyword.ofText?` recognises exactly their spellings (`ofText?_eq_some_iff`). -/

namespace Lexis

/-- A reserved word. -/
inductive Keyword where
  | «and» | «break» | «class» | const | «continue» | «else» | «false» | fn | «for» | «if»
  | «import» | «in» | «let» | «match» | null | or | «return» | self | super | «true» | «while»
deriving DecidableEq, Repr

namespace Keyword

/-- The text of a keyword. -/
def spelling : Keyword → String
  | «and» => "and"
  | «break» => "break"
  | «class» => "class"
  | const => "const"
  | «continue» => "continue"
  | «else» => "else"
  | «false» => "false"
  | fn => "fn"
  | «for» => "for"
  | «if» => "if"
  | «import» => "import"
  | «in» => "in"
  | «let» => "let"
  | «match» => "match"
  | null => "null"
  | or => "or"
  | «return» => "return"
  | self => "self"
  | super => "super"
  | «true» => "true"
  | «while» => "while"

/-- The name under which a keyword is listed. -/
def name : Keyword → String
  | «and» => "And"
  | «break» => "Break"
  | «class» => "Class"
  | const => "Const"
  | «continue» => "Continue"
  | «else» => "Else"
  | «false» => "False"
  | fn => "Fn"
  | «for» => "For"
  | «if» => "If"
  | «import» => "Import"
  | «in» => "In"
  | «let» => "Let"
  | «match» => "Match"
  | null => "Null"
  | or => "Or"
  | «return» => "Return"
  | self => "SelfValue"
  | super => "Super"
  | «true» => "True"
  | «while» => "While"

/-- Every keyword, in the order in which completion offers them. -/
def all : List Keyword :=
  [«and», «break», «class», const, «continue», «else», «false», fn, «for», «if», «import», «in»,
   «let», «match», null, or, «return», self, super, «true», «while»]

theorem mem_all (k : Keyword) : k ∈ all := by cases k <;> decide

/-- The keyword with a given spelling. -/
def ofText? (text : String) : Option Keyword := all.find? fun k => k.spelling = text

theorem ofText?_spelling (k : Keyword) : ofText? k.spelling = some k := by cases k <;> rfl

theorem ofText?_eq_some_iff {text : String} {k : Keyword} :
    ofText? text = some k ↔ k.spelling = text := by
  constructor
  · intro h
    simpa using List.find?_some h
  · rintro rfl
    exact ofText?_spelling k

end Keyword

end Lexis
