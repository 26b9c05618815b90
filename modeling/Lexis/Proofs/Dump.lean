import Lexis.Dump
import Lexis.Proofs.Json
import Lexis.Proofs.Layout
import Lexis.Scanner.Basic

set_option autoImplicit false

/-! # Dumps tell the tokens

A dump is the JSON text of an array with one object for each token. The text tells the array
(`Json.render_inj`), and an object tells its token: kinds have different names, and numbers are told
by their digits, decimals by the shortest digits that read back (`Layout.write_injective`). -/

namespace Lexis

/-! ## Kinds of tokens -/

namespace TokenKind

/-- Every kind of token. -/
def all : List TokenKind :=
  Symbol.all.map symbol ++ Keyword.all.map keyword ++ [string, number, identifier, endOfInput]

theorem mem_all (k : TokenKind) : k ∈ all := by
  cases k with
  | symbol s => simp [all, Symbol.mem_all]
  | keyword k => simp [all, Keyword.mem_all]
  | string => simp [all]
  | number => simp [all]
  | identifier => simp [all]
  | endOfInput => simp [all]

theorem name_injective : Function.Injective name := by
  intro k k' h
  have hnodup : (all.map name).Nodup := by decide +kernel
  exact List.inj_on_of_nodup_map hnodup (mem_all k) (mem_all k') h

end TokenKind

/-! ## Numbers -/

theorem Json.ofNat_injective : Function.Injective Json.ofNat := by
  intro n n' h
  rw [← Nat.ofDigitChars_ten_toDigits (n := n), Json.number.inj h, Nat.ofDigitChars_ten_toDigits]

theorem Json.hasNumerals_ofNat (n : Nat) : (Json.ofNat n).HasNumerals :=
  .number Nat.toDigits_ne_nil fun c hc => by
    have hdigit : c.isDigit = true := Nat.isDigit_of_mem_toDigits (by decide) (by decide) hc
    simp [Json.isNumeralPart, hdigit]

theorem Json.hasNumerals_write (x : Binary64) :
    (Json.number (Layout.dump.write x)).HasNumerals := by
  refine .number (Layout.write_ne_nil x) fun c hc => ?_
  have hplus : Layout.dump.plusSign = ['+'] := rfl
  have hcases := Layout.mem_write hc
  rw [hplus, List.mem_singleton] at hcases
  rcases hcases with hdigit | rfl | rfl | rfl | rfl
  · simp [isNumeralPart, hdigit]
  · rfl
  · rfl
  · rfl
  · rfl

theorem Layout.dump_write_injective : Function.Injective Layout.dump.write :=
  Layout.write_injective (.inr rfl)

/-! ## Tokens -/

theorem Literal.hasNumerals_dump (l : Option Literal) : (Literal.dump l).HasNumerals := by
  rcases l with _ | n | x | text
  · exact .string _
  · exact .object (by simpa using Json.hasNumerals_ofNat n)
  · exact .object (by simpa using Json.hasNumerals_write x)
  · exact .object (by simpa using Json.HasNumerals.string text.toList)

theorem Literal.dump_injective : Function.Injective Literal.dump := by
  intro l l' h
  rcases l with _ | n | x | text <;> rcases l' with _ | n' | x' | text' <;>
    simp [Literal.dump, Json.record] at h
  · rfl
  · rw [Json.ofNat_injective h]
  · rw [Layout.dump_write_injective h]
  · rw [String.toList_injective h]

theorem Token.hasNumerals_dump (t : Token) : t.dump.HasNumerals := by
  have hspan : (Json.record [("start", .ofNat t.start.offset),
      ("end", .ofNat t.stop)]).HasNumerals := .object (by simp [Json.hasNumerals_ofNat])
  refine .object ?_
  simp [Json.hasNumerals_ofNat, Json.HasNumerals.string, Literal.hasNumerals_dump, hspan]

theorem Token.dump_injective : Function.Injective Token.dump := by
  intro t t' h
  obtain ⟨kind, lexeme, literal, ⟨offset, line, column⟩, stop⟩ := t
  obtain ⟨kind', lexeme', literal', ⟨offset', line', column'⟩, stop'⟩ := t'
  simp only [Token.dump, Json.record, List.map_cons, List.map_nil, Json.object.injEq,
    List.cons.injEq, Prod.mk.injEq, Json.string.injEq, true_and, and_true] at h
  obtain ⟨hline, hcolumn, hkind, hlexeme, hliteral, hoffset, hstop⟩ := h
  obtain rfl := Json.ofNat_injective hline
  obtain rfl := Json.ofNat_injective hcolumn
  obtain rfl := TokenKind.name_injective (String.toList_injective hkind)
  obtain rfl := String.toList_injective hlexeme
  obtain rfl := Literal.dump_injective hliteral
  obtain rfl := Json.ofNat_injective hoffset
  obtain rfl := Json.ofNat_injective hstop
  rfl

/-! ## Rows of tokens -/

theorem hasNumerals_tokens (tokens : List Token) :
    (Json.array (tokens.map Token.dump)).HasNumerals :=
  .array fun v hv => by
    obtain ⟨t, -, rfl⟩ := List.mem_map.1 hv
    exact t.hasNumerals_dump

/-- The dump of a row of tokens tells the tokens, in either style. -/
theorem dump_inj {style : Json.Style} {tokens tokens' : List Token}
    (h : dump style tokens = dump style tokens') : tokens = tokens' := by
  have harray := Json.render_inj (hasNumerals_tokens tokens) (hasNumerals_tokens tokens') h
  exact List.map_injective_iff.2 Token.dump_injective (Json.array.inj harray)

/-- Two sources with one dump have the same tokens, whichever style they are dumped in, and without
    the blanks outside of its strings the pretty dump of a source is its compact dump. -/
theorem Scanner.dump_tokens_eq_iff (s s' : Scanner) (source source' : String) :
    let tokens := (s.scan source).2.tokens
    let tokens' := (s'.scan source').2.tokens
    (dump .compact tokens = dump .compact tokens' ↔ tokens = tokens') ∧
      (dump .pretty tokens = dump .pretty tokens' ↔ tokens = tokens') ∧
      Json.withoutBlanks .outside (dump .pretty tokens).toList = (dump .compact tokens).toList := by
  intro tokens tokens'
  exact ⟨⟨dump_inj, congrArg _⟩, ⟨dump_inj, congrArg _⟩,
    Json.withoutBlanks_render (hasNumerals_tokens tokens) .pretty⟩

end Lexis
