import Lexis.Scanner.Basic

set_option autoImplicit false

/-! # Traces in parts

A trace is taken apart at the same places as its segments. Its errors are those of whole segments,
and those inside strings, which all have the cause of an invalid escape. -/

namespace Lexis

theorem place_append {α : Type} (text : α → List Char) (p : Position) (as bs : List α) :
    place text p (as ++ bs) = place text p as ++ place text (p.after (as.flatMap text)) bs := by
  induction as generalizing p with
  | nil => rfl
  | cons a as ih => simp [place, ih, Position.after_append]

theorem exists_of_mem_place {α : Type} {text : α → List Char} {start : Position} {pieces : List α}
    {p : Placed α} (h : p ∈ place text start pieces) :
    ∃ before piece behind, pieces = before ++ piece :: behind ∧
      p = ⟨start.after (before.flatMap text), piece⟩ := by
  induction pieces generalizing start with
  | nil => simp [place] at h
  | cons piece pieces ih =>
      rcases List.mem_cons.1 h with rfl | h
      · exact ⟨[], piece, pieces, rfl, rfl⟩
      · obtain ⟨before, piece', behind, rfl, rfl⟩ := ih h
        refine ⟨piece :: before, piece', behind, rfl, ?_⟩
        rw [List.flatMap_cons, Position.after_append]

theorem piece_mem_of_mem_place {α : Type} {text : α → List Char} {start : Position}
    {pieces : List α} {p : Placed α} (h : p ∈ place text start pieces) : p.piece ∈ pieces := by
  obtain ⟨before, piece, behind, rfl, rfl⟩ := exists_of_mem_place h
  exact List.mem_append_right _ List.mem_cons_self

/-! ## Errors inside strings -/

/-- The errors of string items of which the first starts at `start`. -/
def itemErrors (start : Position) (items : List StringItem) : List LexError :=
  (place StringItem.text start items).filterMap fun p =>
    if p.piece.value?.isNone then
      some
        { cause := .invalidEscape (String.ofList p.piece.text)
          start := p.start
          stop := p.start.offset + Text.size p.piece.text }
    else none

theorem itemErrors_cons (start : Position) (item : StringItem) (items : List StringItem) :
    itemErrors start (item :: items) =
      itemErrors start [item] ++ itemErrors (start.after item.text) items := by
  unfold itemErrors
  rw [← List.filterMap_append]
  rfl

theorem itemErrors_singleton (start : Position) (item : StringItem) :
    itemErrors start [item] =
      if item.value?.isNone then
        [⟨.invalidEscape (String.ofList item.text), start, start.offset + Text.size item.text⟩]
      else [] := by
  unfold itemErrors
  rw [place, place, List.filterMap_cons, List.filterMap_nil]
  cases item.value? <;> rfl

theorem Placed.escapeErrors_eq (start : Position) (items : List StringItem) :
    escapeErrors start items = itemErrors (start.after ['"']) items := rfl

theorem cause_of_mem_itemErrors {start : Position} {items : List StringItem} {e : LexError}
    (h : e ∈ itemErrors start items) : ∃ sequence, e.cause = .invalidEscape sequence := by
  obtain ⟨item, -, hitem⟩ := List.mem_filterMap.1 h
  split at hitem
  · obtain rfl := Option.some.inj hitem
    exact ⟨_, rfl⟩
  · simp at hitem

theorem Placed.cause_of_mem_escapeErrors {p : Position} {items : List StringItem} {e : LexError}
    (h : e ∈ escapeErrors p items) : ∃ sequence, e.cause = .invalidEscape sequence :=
  cause_of_mem_itemErrors h

/-! ## Traces -/

namespace Trace

theorem tokens_append (s t : Trace) : tokens (s ++ t) = tokens s ++ tokens t :=
  List.filterMap_append ..

theorem errors_append (s t : Trace) : errors (s ++ t) = errors s ++ errors t :=
  List.flatMap_append ..

theorem tokens_cons (p : Placed Segment) (t : Trace) :
    tokens (p :: t) = p.token?.toList ++ tokens t := by
  rw [tokens, List.filterMap_cons]
  cases p.token? <;> rfl

theorem errors_cons (p : Placed Segment) (t : Trace) : errors (p :: t) = p.errors ++ errors t :=
  List.flatMap_cons ..

end Trace

namespace Scanner

theorem tokens_scan (s : Scanner) (source : String) :
    (s.scan source).2.tokens = (Trace.ofText source.toList).tokens := rfl

theorem errors_scan (s : Scanner) (source : String) :
    (s.scan source).1.errors = (Trace.ofText source.toList).errors := rfl

theorem hadError_scan_iff (s : Scanner) (source : String) :
    (s.scan source).1.hadError = true ↔ ¬ (Lexis.scan source).errors = [] := by
  have herrors : (s.scan source).1.errors = (Lexis.scan source).errors := rfl
  rw [hadError, herrors, Bool.not_eq_true', List.isEmpty_eq_false_iff]

end Scanner

end Lexis
