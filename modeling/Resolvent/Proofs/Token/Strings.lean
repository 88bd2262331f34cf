import Resolvent.Proofs.Token.Coverage
import Resolvent.Val.Printer

/-!
# Strings as source

A string is lexed by its body alone: as one token with the text that the units of the body stand
for, or as one bad stretch if they are no such units.
-/

namespace Resolvent.Token

variable {b : List Char}

lemma lex_body (h : Text.Body b) : let span := Span.wrap ⟨0, byteLength ('"' :: (b ++ ['"']))⟩
    lex ('"' :: (b ++ ['"'])) = (Text.unescape b).elim ([], [span]) fun s =>
      ([(.str (String.ofList s), span)], []) := by
  have hfirst := firstLexeme_body h []
  rw [lex_eq_wrap, lexemes_single (by simpa using hfirst) (by simp), Nat.zero_add]
  cases Text.unescape b <;> rfl

/-- The text of a string value is lexed as that string and nothing else. -/
theorem lex_str_text (s : String) : lex (Val.str s).text.toList =
    ([(.str s, Span.wrap ⟨0, byteLength (Val.str s).text.toList⟩)], []) := by
  have hspells : Text.Spells true _ _ := Text.spells_escape s.toList
  have htext : (Val.str s).text.toList = '"' :: (Text.escape s.toList ++ ['"']) := by
    simp [Val.text, Text.quote]
  rw [htext, lex_body hspells.body, hspells.unescape_eq, Option.elim_some, String.ofList_toList]

/-- A string is a token exactly if its body spells a text, where the numeral of a code point may
have a plus sign and the end of the body closes an escape too. Otherwise the whole of it is bad. -/
theorem lex_spelled (h : Text.Body b) : let source := '"' :: (b ++ ['"'])
    (∀ s : String, lex source = ([(.str s, Span.wrap ⟨0, byteLength source⟩)], []) ↔
    Text.Spells true b s.toList) ∧
    ((∀ s, ¬ Text.Spells true b s) → lex source = ([], [Span.wrap ⟨0, byteLength source⟩])) := by
  intro source
  have hlex := lex_body h
  refine ⟨fun s => ⟨fun hs => ?_, fun hs => ?_⟩, fun hnone => ?_⟩
  · cases hread : Text.unescape b with
    | none => simp [source, hlex, hread] at hs
    | some body =>
      obtain rfl : String.ofList body = s := by simpa [source, hlex, hread] using hs
      simpa using h.spells hread
  · rw [hlex, hs.unescape_eq, Option.elim_some, String.ofList_toList]
  · rw [hlex, Option.eq_none_iff_forall_ne_some.2 fun s hs => hnone s (h.spells hs),
      Option.elim_none]

/-- A code point with all its digits and its brace, and a backslash before a letter that escapes
nothing. -/
theorem lex_spelled_escapes : Text.Body "\\u\x7b00e9\x7d".toList ∧ Text.Body "\\q".toList ∧
    lex "\"\\u\x7b00e9\x7d\"".toList = ([(.str "é", ⟨0, 10⟩)], []) ∧
    lex "\"\\q\"".toList = ([], [⟨0, 4⟩]) := by
  have hnames : Text.Signed true "00e9".toList 'é' :=
    .inl ⟨[0, 0, 14, 9], by decide, by decide, by decide⟩
  have hspells : Text.Spells true "\\u\x7b00e9\x7d".toList "é".toList := .code hnames .nil
  have hbody : Text.Body "\\q".toList := .escaped (by decide) .nil
  have hunknown (s : List Char) : ¬ Text.Spells true "\\q".toList s := fun hs => by
    have hread := hs.unescape_eq
    simp [Text.unescape, Text.shortEscape?] at hread
  exact ⟨hspells.body, hbody, ((lex_spelled hspells.body).1 "é").2 hspells,
    (lex_spelled hbody).2 hunknown⟩

lemma exists_names_of_spells {s : List Char}
    (h : Text.Spells false ('\\' :: 'u' :: '\x7b' :: b) s) :
    ∃ ds c r, b = ds ++ '\x7d' :: r ∧ Text.Names ds c := by
  cases h with
  | plain _ hslash => exact absurd rfl hslash
  | short he => simp at he
  | code hc =>
    rcases hc with hc | ⟨hlax, -⟩
    · exact ⟨_, _, _, rfl, hc⟩
    · cases hlax
  | last hlax => cases hlax

/-- An escape without its closing brace and an escape with a sign are taken all the same. -/
theorem lex_misspelled : let unclosed := "\\u\x7b41".toList; let signed := "\\u\x7b+41\x7d".toList
    (∀ s, ¬ Text.Spells false unclosed s) ∧ lex ('"' :: (unclosed ++ ['"'])) =
    ([(.str "A", ⟨0, 7⟩)], []) ∧
    (∀ s, ¬ Text.Spells false signed s) ∧ lex ('"' :: (signed ++ ['"'])) =
    ([(.str "A", ⟨0, 9⟩)], []) := by
  intro unclosed signed
  have hnames : Text.Names "41".toList 'A' := ⟨[4, 1], by decide, by decide, by decide⟩
  have hunclosed : Text.Spells true unclosed "A".toList := .last rfl (.inl hnames)
  have hsigned : Text.Spells true signed "A".toList := .code (.inr ⟨rfl, _, rfl, hnames⟩) .nil
  refine ⟨fun s hs => ?_, ?_, fun s hs => ?_, ?_⟩
  · obtain ⟨ds, c, r, heq, -⟩ := exists_names_of_spells (b := ['4', '1']) hs
    have hbrace : '\x7d' ∈ ['4', '1'] := by simp [heq]
    exact absurd hbrace (by decide)
  · rw [lex_body hunclosed.body, hunclosed.unescape_eq]
    rfl
  · obtain ⟨ds, c, r, heq, hc⟩ := exists_names_of_spells (b := ['+', '4', '1', '\x7d']) hs
    cases ds with
    | nil => cases heq
    | cons d ds =>
      obtain rfl := (List.cons.inj heq).1
      exact hc.not_mem (d := '+') (by simp) (by simp)
  · rw [lex_body hsigned.body, hsigned.unescape_eq]
    rfl

end Resolvent.Token
