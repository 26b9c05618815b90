import Lexis.Proofs.Cut
import Mathlib.Data.Nat.Digits.Defs

set_option autoImplicit false

/-! # What string literals stand for

The inside of a string falls apart into pieces, each of which is told by its text and by the
character behind it (`StringPiece.Before`), without a reader: characters that stand for themselves,
escapes that stand for a character, and escapes that stand for nothing. A piece is an item of the
string and the other way round, so a string has one row of pieces; its value is what the pieces
stand for, and its errors are the pieces that stand for nothing. -/

namespace Lexis

/-! ## Pieces -/

/-- The letters that mean something behind a backslash, with the character that each stands for. -/
inductive IsSimpleEscape : Char → Char → Prop
  | lineFeed : IsSimpleEscape 'n' '\n'
  | tab : IsSimpleEscape 't' '\t'
  | carriageReturn : IsSimpleEscape 'r' '\r'
  | null : IsSimpleEscape '0' '\x00'
  | quote : IsSimpleEscape '"' '"'
  | backslash : IsSimpleEscape '\\' '\\'
  | apostrophe : IsSimpleEscape '\'' '\''

/-- The number that hexadecimal digits of either case spell: each digit counts by its place among
    the sixteen, the last one as it is. -/
def Text.hexNumber (digits : List Char) : Nat :=
  Nat.ofDigits 16 (digits.map fun c => "0123456789abcdef".toList.idxOf c.toLower).reverse

/-- One to six digits that spell the code point of a character. -/
def NamesScalar (digits : List Char) (c : Char) : Prop :=
  1 ≤ digits.length ∧ digits.length ≤ 6 ∧ Text.hexNumber digits = c.toNat

/-- A piece of the inside of a string, with the character that it stands for if there is one. -/
structure StringPiece where
  text : List Char
  value? : Option Char

namespace StringPiece

/-- What pieces there are, where `rest` stands behind them. -/
inductive Before (rest : List Char) : StringPiece → Prop
  | plain {c : Char} : c ≠ '"' → c ≠ '\\' → Before rest ⟨[c], some c⟩
  | simple {c d : Char} : IsSimpleEscape c d → Before rest ⟨['\\', c], some d⟩
  /-- Digits between braces that name a character. -/
  | scalar {digits : List Char} {c : Char} :
      (∀ d ∈ digits, d.isHexDigit = true) → NamesScalar digits c →
        Before rest ⟨'\\' :: 'u' :: '\x7b' :: (digits ++ ['\x7d']), some c⟩
  /-- Digits between braces, or none, that name no character. -/
  | nonscalar {digits : List Char} :
      (∀ d ∈ digits, d.isHexDigit = true) → (∀ c, ¬ NamesScalar digits c) →
        Before rest ⟨'\\' :: 'u' :: '\x7b' :: (digits ++ ['\x7d']), none⟩
  /-- All digits behind an opening brace, where no closing brace comes next. -/
  | unclosed {digits : List Char} :
      (∀ d ∈ digits, d.isHexDigit = true) →
      (∀ d, rest.head? = some d → d.isHexDigit = false ∧ d ≠ '\x7d') →
        Before rest ⟨'\\' :: 'u' :: '\x7b' :: digits, none⟩
  | bare : rest.head? ≠ some '\x7b' → Before rest ⟨['\\', 'u'], none⟩
  | unknown {c : Char} : c ≠ 'u' → (∀ d, ¬ IsSimpleEscape c d) → Before rest ⟨['\\', c], none⟩

/-- The source text of pieces in a row. -/
def textOf (pieces : List StringPiece) : List Char := pieces.flatMap text

/-- Pieces in a row before `tail`. -/
def Row (tail : List Char) : List StringPiece → Prop
  | [] => True
  | piece :: pieces => piece.Before (textOf pieces ++ tail) ∧ Row tail pieces

end StringPiece

/-! ## Numbers and characters -/

theorem isSimpleEscape_iff {c d : Char} :
    IsSimpleEscape c d ↔ StringItem.escapes.lookup c = some d := by
  constructor
  · intro h
    cases h <;> rfl
  · intro h
    obtain ⟨earlier, later, htable, -⟩ := List.lookup_eq_some_iff.1 h
    have hmem : (c, d) ∈ StringItem.escapes := by
      rw [htable]
      exact List.mem_append_right _ List.mem_cons_self
    simp only [StringItem.escapes, List.mem_cons, Prod.mk.injEq, List.not_mem_nil,
      or_false] at hmem
    rcases hmem with ⟨rfl, rfl⟩ | ⟨rfl, rfl⟩ | ⟨rfl, rfl⟩ | ⟨rfl, rfl⟩ | ⟨rfl, rfl⟩ | ⟨rfl, rfl⟩ |
      ⟨rfl, rfl⟩ <;> constructor

namespace Text

theorem toNat_lt_of_isHexDigit {c : Char} (h : c.isHexDigit = true) : c.toNat < 128 := by
  have hnine : '9'.val.toNat = 57 := rfl
  have hf : 'f'.val.toNat = 102 := rfl
  have hF : 'F'.val.toNat = 70 := rfl
  simp only [Char.isHexDigit, Char.isDigit, Bool.or_eq_true, Bool.and_eq_true, decide_eq_true_eq,
    UInt32.le_iff_toNat_le, ge_iff_le] at h
  show c.val.toNat < 128
  omega

/-- A hexadecimal digit of either case has the value of its place among the sixteen. -/
theorem hexDigitValue_eq_idxOf {c : Char} (h : c.isHexDigit = true) :
    hexDigitValue c = "0123456789abcdef".toList.idxOf c.toLower := by
  have hall : ∀ n < 128, (Char.ofNat n).isHexDigit = true →
      hexDigitValue (Char.ofNat n) = "0123456789abcdef".toList.idxOf (Char.ofNat n).toLower := by
    decide +kernel
  have hvalue := hall c.toNat (toNat_lt_of_isHexDigit h)
  rw [Char.ofNat_toNat] at hvalue
  exact hvalue h

theorem hexValue_eq_hexNumber {digits : List Char} (h : ∀ c ∈ digits, c.isHexDigit = true) :
    hexValue digits = hexNumber digits := by
  -- the last digit counts once, so the induction takes it off
  induction digits using List.reverseRecOn with
  | nil => rfl
  | append_singleton digits d ih =>
      have hinit := ih fun c hc => h c (List.mem_append_left _ hc)
      have hlast := hexDigitValue_eq_idxOf (h d (by simp))
      rw [hexValue_concat, hinit, hlast, hexNumber, hexNumber, List.map_append,
        List.reverse_append]
      exact Nat.add_comm ..

end Text

/-! ## Pieces and items -/

/-- The value of digits between braces is the character that they name. -/
theorem value?_unicode_eq_some_iff {digits : List Char} {c : Char}
    (h : ∀ d ∈ digits, d.isHexDigit = true) :
    (StringItem.unicode digits true).value? = some c ↔ NamesScalar digits c := by
  rw [StringItem.value?, Text.hexValue_eq_hexNumber h, NamesScalar]
  simp only [Bool.true_and, Bool.and_eq_true, decide_eq_true_eq]
  split
  · next hlength =>
      rw [Text.scalar?_eq_some_iff]
      exact ⟨fun hnumber => ⟨hlength.1, hlength.2, hnumber⟩, fun hnames => hnames.2.2⟩
  · next hlength =>
      simp only [reduceCtorEq, false_iff]
      intro hnames
      exact hlength ⟨hnames.1, hnames.2.1⟩

namespace StringItem

/-- The piece that an item is. -/
def piece (item : StringItem) : StringPiece := ⟨item.text, item.value?⟩

/-- An item that ends before `rest` is a piece there. -/
theorem WellFormed.before_piece {item : StringItem} {rest : List Char} (hitem : item.WellFormed)
    (hend : item.goesOn rest = false) : item.piece.Before rest := by
  cases item with
  | plain c => exact .plain hitem.1 hitem.2
  | escape c =>
      have hu : c ≠ 'u' := hitem
      cases hvalue : (escape c).value? with
      | some d =>
          rw [piece, hvalue]
          exact .simple (isSimpleEscape_iff.2 hvalue)
      | none =>
          rw [piece, hvalue]
          refine .unknown hu ?_
          intro d hd
          rw [isSimpleEscape_iff] at hd
          exact absurd (hvalue.symm.trans hd) (by simp)
  | bareUnicode =>
      refine .bare ?_
      intro hbrace
      obtain ⟨tail, rfl⟩ := List.head?_eq_some_iff.1 hbrace
      simp [goesOn] at hend
  | unicode digits closed =>
      have hdigits : ∀ d ∈ digits, d.isHexDigit = true := hitem
      cases closed with
      | true =>
          cases hvalue : (unicode digits true).value? with
          | some c =>
              rw [piece, hvalue]
              exact .scalar hdigits ((value?_unicode_eq_some_iff hdigits).1 hvalue)
          | none =>
              rw [piece, hvalue]
              refine .nonscalar hdigits ?_
              intro c hnames
              rw [← value?_unicode_eq_some_iff hdigits] at hnames
              exact absurd (hvalue.symm.trans hnames) (by simp)
      | false =>
          have hopen : (unicode digits false).piece = ⟨'\\' :: 'u' :: '\x7b' :: digits, none⟩ := by
            simp [piece, text, value?]
          rw [hopen]
          refine .unclosed hdigits ?_
          intro d hd
          obtain ⟨tail, rfl⟩ := List.head?_eq_some_iff.1 hd
          simpa [goesOn] using hend

end StringItem

/-- A piece before `rest` is an item that ends there. -/
theorem StringPiece.Before.exists_item {piece : StringPiece} {rest : List Char}
    (h : piece.Before rest) :
    ∃ item : StringItem, item.WellFormed ∧ item.goesOn rest = false ∧ item.piece = piece := by
  cases h with
  | @plain c hquote hslash => exact ⟨.plain c, ⟨hquote, hslash⟩, rfl, rfl⟩
  | @simple c d hsimple =>
      have hvalue : (StringItem.escape c).value? = some d := isSimpleEscape_iff.1 hsimple
      have hu : c ≠ 'u' := by
        rintro rfl
        cases hsimple
      exact ⟨.escape c, hu, rfl, by rw [StringItem.piece, hvalue]; rfl⟩
  | @scalar digits c hdigits hnames =>
      have hvalue := (value?_unicode_eq_some_iff hdigits).2 hnames
      exact ⟨.unicode digits true, hdigits, rfl, by rw [StringItem.piece, hvalue]; rfl⟩
  | @nonscalar digits hdigits hnames =>
      have hvalue : (StringItem.unicode digits true).value? = none := by
        refine Option.eq_none_iff_forall_ne_some.2 ?_
        intro c hc
        exact hnames c ((value?_unicode_eq_some_iff hdigits).1 hc)
      exact ⟨.unicode digits true, hdigits, rfl, by rw [StringItem.piece, hvalue]; rfl⟩
  | @unclosed digits hdigits hrest =>
      refine ⟨.unicode digits false, hdigits, ?_, ?_⟩
      · cases rest with
        | nil => rfl
        | cons d rest => simpa [StringItem.goesOn] using hrest d rfl
      · simp [StringItem.piece, StringItem.text, StringItem.value?]
  | bare hrest =>
      refine ⟨.bareUnicode, trivial, ?_, rfl⟩
      cases rest with
      | nil => rfl
      | cons d rest => simpa [StringItem.goesOn] using hrest
  | @unknown c hu hsimple =>
      have hvalue : (StringItem.escape c).value? = none := by
        refine Option.eq_none_iff_forall_ne_some.2 ?_
        intro d hd
        exact hsimple d (isSimpleEscape_iff.2 hd)
      exact ⟨.escape c, hu, rfl, by rw [StringItem.piece, hvalue]; rfl⟩

theorem StringPiece.textOf_map_piece (items : List StringItem) :
    textOf (items.map StringItem.piece) = StringItem.textOf items := List.flatMap_map ..

/-- The pieces of a text are its items: each row of the one kind is a row of the other. -/
theorem StringPiece.row_iff_exists {tail : List Char} {pieces : List StringPiece} :
    Row tail pieces ↔ ∃ items, StringItem.Row tail items ∧ items.map StringItem.piece = pieces := by
  constructor
  · intro h
    induction pieces with
    | nil => exact ⟨[], trivial, rfl⟩
    | cons piece pieces ih =>
        obtain ⟨hpiece, hrow⟩ := h
        obtain ⟨items, hitems, rfl⟩ := ih hrow
        obtain ⟨item, hitem, hend, rfl⟩ := hpiece.exists_item
        rw [textOf_map_piece] at hend
        exact ⟨item :: items, ⟨hitem, hend, hitems⟩, rfl⟩
  · rintro ⟨items, hitems, rfl⟩
    induction items with
    | nil => trivial
    | cons item items ih =>
        obtain ⟨hitem, hend, hrow⟩ := hitems
        refine ⟨?_, ih hrow⟩
        rw [textOf_map_piece]
        exact hitem.before_piece hend

/-! ## Strings in a text -/

/-- The error that reports a piece. -/
def StringPiece.report (p : Placed StringPiece) : LexError :=
  { cause := .invalidEscape (String.ofList p.piece.text)
    start := p.start
    stop := p.start.offset + Text.size p.piece.text }

/-- The errors inside a string report the pieces that stand for nothing. -/
theorem Placed.escapeErrors_eq_map_report (start : Position) (items : List StringItem) :
    escapeErrors start items =
      ((place StringPiece.text (start.after ['"']) (items.map StringItem.piece)).filter
        fun p => p.piece.value?.isNone).map StringPiece.report := by
  unfold escapeErrors
  generalize start.after ['"'] = first
  induction items generalizing first with
  | nil => rfl
  | cons item items ih =>
      have hrest := ih (first.after item.text)
      rw [place, List.map_cons, place, List.filterMap_cons, List.filter_cons, hrest]
      by_cases hvalue : item.value?.isNone = true
      · simp only [hvalue, StringItem.piece, if_true, List.map_cons]
        rfl
      · simp only [hvalue, StringItem.piece, Bool.false_eq_true, if_false]

theorem Segment.exists_string_of_token? {s : Segment} {literal? : Option Literal}
    (h : s.token? = some (.string, literal?)) :
    ∃ items, s = string items ∧
      literal? = some (.string (String.ofList (StringItem.decode items))) := by
  cases s with
  | string items =>
      obtain rfl : _ = literal? := by simpa [token?] using h
      exact ⟨items, rfl, rfl⟩
  | word text =>
      simp only [token?, TokenKind.ofWord, Option.some.injEq, Prod.mk.injEq] at h
      split at h <;> simp at h
  | integer digits => cases hvalue : integerValue? digits <;> simp [token?, hvalue] at h
  | decimal whole fraction =>
      cases hvalue : Binary64.ofDecimal? whole fraction <;> simp [token?, hvalue] at h
  | _ => simp [token?] at h

/-- The errors that start in the text of a segment are the errors of the segment. -/
theorem Trace.filter_errors_eq {cs : List Char} {before behind : Trace} {p : Placed Segment}
    (h : ofText cs = before ++ p :: behind) :
    ((ofText cs).errors.filter fun e => p.start.offset ≤ e.span.start ∧
      e.span.start < p.start.offset + Text.size p.piece.text) = p.errors := by
  obtain ⟨as, bs, hsegments, rfl, hrest⟩ := place_eq_append_iff.1 h
  have hfirst := Position.offset_after .origin (as.flatMap Segment.text)
  rw [Position.offset_origin, Nat.zero_add] at hfirst
  generalize Position.origin.after (as.flatMap Segment.text) = first at hfirst hrest
  cases bs with
  | nil => simp [place] at hrest
  | cons segment bs =>
      obtain ⟨rfl, rfl⟩ := List.cons.inj hrest
      have hrow := Segment.row_readAll cs
      rw [hsegments, Segment.row_append] at hrow
      obtain ⟨has, hsegment, hbs⟩ := hrow
      have hearly : ∀ e ∈ errors (place Segment.text .origin as),
          e.span.start < first.offset := by
        intro e he
        have hoffset := (offset_of_mem_errors_row has he).2
        rw [Position.offset_origin, Nat.zero_add] at hoffset
        rwa [hfirst]
      have hown : ∀ e ∈ Placed.errors ⟨first, segment⟩,
          first.offset ≤ e.span.start ∧ e.span.start < first.offset + Text.size segment.text := by
        intro e he
        have hsingle : Segment.Row (Segment.textOf bs ++ []) [segment] := ⟨hsegment, trivial⟩
        have hmem : e ∈ errors (place Segment.text first [segment]) := by
          rw [place, errors_cons]
          exact List.mem_append_left _ he
        simpa using offset_of_mem_errors_row hsingle hmem
      have hlate : ∀ e ∈ errors (place Segment.text (first.after segment.text) bs),
          first.offset + Text.size segment.text ≤ e.span.start := by
        intro e he
        have hoffset := (offset_of_mem_errors_row hbs he).1
        rwa [Position.offset_after] at hoffset
      rw [h, errors_append, errors_cons, List.filter_append, List.filter_append,
        List.filter_eq_nil_iff.2, List.filter_eq_self.2, List.filter_eq_nil_iff.2,
        List.nil_append, List.append_nil]
      · intro e he
        have hoffset := hlate e he
        simp only [decide_eq_true_eq]
        omega
      · intro e he
        exact decide_eq_true (hown e he)
      · intro e he
        have hoffset := hearly e he
        simp only [decide_eq_true_eq]
        omega

/-- The inside of a string token is one row of pieces. The token has the value that they stand for,
    and the errors that start in it report those that stand for nothing. -/
theorem Scanner.exists_pieces (s : Scanner) (source : String) {t : Token}
    (ht : t ∈ (s.scan source).2.tokens) (hkind : t.kind = .string) :
    ∃ pieces : List StringPiece,
      (∀ pieces', t.lexeme.toList = '"' :: (StringPiece.textOf pieces' ++ ['"']) ∧
        StringPiece.Row ['"'] pieces' ↔ pieces' = pieces) ∧
      t.literal? = some (.string (String.ofList (pieces.filterMap StringPiece.value?))) ∧
      ((s.scan source).1.errors.filter fun e => t.span.start ≤ e.span.start ∧
          e.span.start < t.span.stop) =
        ((place StringPiece.text (t.start.after ['"']) pieces).filter
          fun p => p.piece.value?.isNone).map StringPiece.report := by
  obtain ⟨p, hp, htoken⟩ := List.mem_filterMap.1 ht
  obtain ⟨before, behind, htrace⟩ := List.append_of_mem hp
  have herrors := Trace.filter_errors_eq htrace
  obtain ⟨⟨kind, literal?⟩, hsegment, rfl⟩ := Option.map_eq_some_iff.1 htoken
  obtain rfl : kind = .string := hkind
  obtain ⟨items, hpiece, rfl⟩ := Segment.exists_string_of_token? hsegment
  have hrow : StringItem.Row ['"'] items := by
    have hwell := (Segment.row_readAll source.toList).wellFormed_of_mem (piece_mem_of_mem_place hp)
    rwa [hpiece] at hwell
  refine ⟨items.map StringItem.piece, ?_, ?_, ?_⟩
  · intro pieces'
    rw [String.toList_ofList, hpiece]
    constructor
    · rintro ⟨htext, hrow'⟩
      obtain ⟨items', hitems', rfl⟩ := StringPiece.row_iff_exists.1 hrow'
      rw [StringPiece.textOf_map_piece] at htext
      have hunique : items = items' ∧ StringItem.Ending.closed [] = .closed [] :=
        StringItem.Row.unique hrow hitems' (List.cons.inj htext).2
      rw [hunique.1]
    · rintro rfl
      rw [StringPiece.textOf_map_piece]
      exact ⟨rfl, StringPiece.row_iff_exists.2 ⟨items, hrow, rfl⟩⟩
  · rw [List.filterMap_map]
    rfl
  · rw [errors_scan]
    refine herrors.trans ?_
    rw [← Placed.escapeErrors_eq_map_report, Placed.errors, Placed.ownError?, hpiece]
    exact List.append_nil _

/-- A string with two escapes that stand for a character and three that do not, the last one before
    the closing quote; an error behind the string is none of its own. -/
theorem Scanner.exists_pieces_invalid_escapes :
    (⟨.string, "\"\\n\\q\\u\x7b41\x7d\\u\x7b110000\x7d\\u\"", some (.string "\nA"), ⟨2, 2, 1⟩,
          26⟩ : Token) ∈
        (scan {} "1\n\"\\n\\q\\u\x7b41\x7d\\u\x7b110000\x7d\\u\" ~").2.tokens ∧
      ∃ pieces : List StringPiece,
        (∀ pieces', "\"\\n\\q\\u\x7b41\x7d\\u\x7b110000\x7d\\u\"".toList =
            '"' :: (StringPiece.textOf pieces' ++ ['"']) ∧ StringPiece.Row ['"'] pieces' ↔
              pieces' = pieces) ∧
        some (Literal.string "\nA") =
          some (.string (String.ofList (pieces.filterMap StringPiece.value?))) ∧
        [⟨.invalidEscape "\\q", ⟨5, 2, 4⟩, 7⟩,
            ⟨.invalidEscape "\\u\x7b110000\x7d", ⟨13, 2, 12⟩, 23⟩,
            ⟨.invalidEscape "\\u", ⟨23, 2, 22⟩, 25⟩] =
          ((place StringPiece.text (Position.after ⟨2, 2, 1⟩ ['"']) pieces).filter
            fun p => p.piece.value?.isNone).map StringPiece.report := by
  have htoken : (⟨.string, "\"\\n\\q\\u\x7b41\x7d\\u\x7b110000\x7d\\u\"",
        some (.string "\nA"), ⟨2, 2, 1⟩, 26⟩ : Token) ∈
      (scan {} "1\n\"\\n\\q\\u\x7b41\x7d\\u\x7b110000\x7d\\u\" ~").2.tokens := by
    decide +kernel
  have herrors : ((scan {} "1\n\"\\n\\q\\u\x7b41\x7d\\u\x7b110000\x7d\\u\" ~").1.errors.filter
        fun e => 2 ≤ e.span.start ∧ e.span.start < 26) =
      [⟨.invalidEscape "\\q", ⟨5, 2, 4⟩, 7⟩, ⟨.invalidEscape "\\u\x7b110000\x7d", ⟨13, 2, 12⟩, 23⟩,
        ⟨.invalidEscape "\\u", ⟨23, 2, 22⟩, 25⟩] := by
    decide +kernel
  obtain ⟨pieces, hpieces, hliteral, hreports⟩ := exists_pieces {} _ htoken rfl
  exact ⟨htoken, pieces, hpieces, hliteral, herrors.symm.trans hreports⟩

end Lexis
