import Resolvent.Proofs.Text.Numeral
import Resolvent.Token.Lexer
import Mathlib.Data.List.Basic

/-!
# Reading quoted text

The body of a string is a row of units: plain characters, short escapes, and escapes that name a
code point.
-/

namespace Resolvent

open List Option

namespace Text

variable {lax : Bool} {c : Char} {ds r s : List Char}

/-! ## Code points -/

/-- The digits are hexadecimal and give the code point of the character. -/
def Names (ds : List Char) (c : Char) : Prop :=
  ∃ vs : List Nat, ds.map (digitValue 16) = vs.map some ∧ vs ≠ [] ∧
    Nat.ofDigits 16 vs.reverse = c.toNat

lemma digitValue_eq_none : ∀ c ∈ ['+', '\x7d', '"', '\\'], digitValue 16 c = none :=
  forall_iff_forall_mem.1 (by decide +kernel)

lemma Names.not_mem (h : Names ds c) {d : Char} (hd : d ∈ ['+', '\x7d', '"', '\\']) : d ∉ ds := by
  obtain ⟨vs, hvs, -⟩ := h
  intro hmem
  have hnone : none ∈ vs.map some := hvs ▸ List.mem_map.2 ⟨d, hmem, digitValue_eq_none d hd⟩
  simp at hnone

lemma names_iff : Names ds c ↔ unsigned? 16 ds = some c.toNat := by
  cases ds with
  | nil => simp [Names, unsigned?]
  | cons d ds =>
    rw [unsigned?, readDigits_eq_some_iff]
    · refine exists_congr fun vs => and_congr_right fun hvs => ?_
      have hne : vs ≠ [] := by
        rintro rfl
        simp at hvs
      simp [hne]
    · simp

lemma names_hexadecimal (c : Char) : Names (hexadecimal c.toNat) c := by
  have hread := readDigits_toDigits (by omega : 1 < 16) (by omega) c.toNat
  rw [names_iff]
  cases h : hexadecimal c.toNat with
  | nil => exact absurd h Nat.toDigits_ne_nil
  | cons d ds => rwa [← hexadecimal, h] at hread

/-- A numeral may have a plus sign if the reading is lax. -/
def Signed (lax : Bool) (ds : List Char) (c : Char) : Prop :=
  Names ds c ∨ lax ∧ ∃ ds', ds = '+' :: ds' ∧ Names ds' c

lemma Signed.not_mem (h : Signed lax ds c) {d : Char} (hd : d ∈ ['\x7d', '"', '\\']) : d ∉ ds := by
  rcases h with h | ⟨-, ds', rfl, h⟩
  · exact h.not_mem (mem_cons_of_mem _ hd)
  · have hne : d ≠ '+' := by
      rintro rfl
      revert hd
      decide
    simpa [hne] using h.not_mem (mem_cons_of_mem _ hd)

lemma codePoint?_eq_some_iff : codePoint? ds = some c ↔ Signed true ds c := by
  obtain ⟨ds', hds, hnames⟩ : ∃ ds', natural? 16 (UInt32.size - 1) ds =
    (unsigned? 16 ds').filter (· ≤ UInt32.size - 1) ∧ (Names ds' c ↔ Signed true ds c) := by
    unfold natural? Signed
    split
    · next ds' =>
      have hplus : ¬ Names ('+' :: ds') c := fun h => h.not_mem (d := '+') (by simp) (by simp)
      exact ⟨ds', rfl, by simp [hplus]⟩
    · next hplus =>
      refine ⟨ds, rfl, (or_iff_left ?_).symm⟩
      rintro ⟨-, ds', rfl, -⟩
      exact hplus ds' rfl
  have hbound : c.toNat ≤ UInt32.size - 1 := Nat.le_sub_one_of_lt c.val.toNat_lt
  rw [codePoint?, hds, ← hnames, names_iff, bind_eq_some_iff]
  constructor
  · rintro ⟨n, hn, hc⟩
    obtain ⟨_, ⟨⟩⟩ := dite_none_right_eq_some.1 hc
    exact (filter_eq_some_iff.1 hn).1
  · exact fun h => ⟨c.toNat, filter_eq_some_iff.2 ⟨h, decide_eq_true hbound⟩, dif_pos c.valid⟩

/-! ## Units -/

/-- The body of a string: its quotes and backslashes are behind a backslash, which takes no line
feed with it. -/
inductive Body : List Char → Prop
  | nil : Body []
  | plain {c : Char} {r : List Char} (hquote : c ≠ '"') (hslash : c ≠ '\\')
      (h : Body r) : Body (c :: r)
  | escaped {c : Char} {r : List Char} (hline : c ≠ '\n') (h : Body r) : Body ('\\' :: c :: r)

/-- What the body of a string stands for, unit by unit. A lax reading takes a plus sign before the
digits of a code point and the end of the body for its closing brace. -/
inductive Spells (lax : Bool) : List Char → List Char → Prop
  | nil : Spells lax [] []
  | plain {c : Char} {r s : List Char} (hquote : c ≠ '"') (hslash : c ≠ '\\')
      (h : Spells lax r s) : Spells lax (c :: r) (c :: s)
  | short {e c : Char} {r s : List Char}
      (he : (e, c) ∈ [('n', '\n'), ('t', '\t'), ('r', '\r'), ('0', '\x00'), ('\\', '\\'),
      ('"', '"')]) (h : Spells lax r s) : Spells lax ('\\' :: e :: r) (c :: s)
  | code {c : Char} {ds r s : List Char} (hc : Signed lax ds c) (h : Spells lax r s) :
      Spells lax ('\\' :: 'u' :: '\x7b' :: (ds ++ '\x7d' :: r)) (c :: s)
  | last {c : Char} {ds : List Char} (hlax : lax)
      (hc : Signed lax ds c) : Spells lax ('\\' :: 'u' :: '\x7b' :: ds) [c]

lemma shortEscape?_eq_some_iff {e : Char} : shortEscape? e = some c ↔
    (e, c) ∈ [('n', '\n'), ('t', '\t'), ('r', '\r'), ('0', '\x00'), ('\\', '\\'), ('"', '"')] := by
  fun_cases shortEscape? e <;> simp_all [eq_comm]

lemma unescapeCode_append {seen : List Char} (h : '\x7d' ∉ ds) :
    unescapeCode seen (ds ++ r) = unescapeCode (ds.reverse ++ seen) r := by
  induction ds generalizing seen with
  | nil => rfl
  | cons d ds ih =>
    simp only [mem_cons, not_or] at h
    rw [cons_append, unescapeCode, ih h.2]
    · simp
    · exact fun hd => h.1 hd.symm

lemma unescape_plain (r : List Char) (h : c ≠ '\\') :
    unescape (c :: r) = (unescape r).map (c :: ·) := by
  rw [unescape]
  all_goals simp_all

lemma Spells.unescape_eq (h : Spells true r s) : unescape r = some s := by
  induction h with
  | nil => rfl
  | plain _ hslash _ ih => rw [unescape_plain _ hslash, ih, map_some]
  | short he _ ih =>
    rw [← shortEscape?_eq_some_iff] at he
    rw [unescape, he, bind_some, ih, map_some]
    rintro _ rfl
    cases he
  | code hc _ ih =>
    rw [unescape, unescapeCode_append (hc.not_mem (by simp)), append_nil, unescapeCode,
      reverse_reverse, codePoint?_eq_some_iff.2 hc, bind_some, ih, map_some]
  | @last c ds _ hc =>
    have hread : unescapeCode [] (ds ++ []) = _ := unescapeCode_append (hc.not_mem (by simp))
    rw [append_nil, append_nil] at hread
    rw [unescape, hread, unescapeCode, reverse_reverse, codePoint?_eq_some_iff.2 hc, map_some]

lemma body_append (hquote : '"' ∉ ds) (hslash : '\\' ∉ ds) : Body (ds ++ r) ↔ Body r := by
  induction ds with
  | nil => rfl
  | cons d ds ih =>
    rw [mem_cons, not_or] at hquote hslash
    rw [← ih hquote.2 hslash.2, cons_append]
    refine ⟨fun h => ?_, .plain (Ne.symm hquote.1) (Ne.symm hslash.1)⟩
    generalize ds ++ r = r' at h
    cases h with
    | plain _ _ h => exact h
    | escaped => exact absurd rfl hslash.1

lemma Signed.body_append (h : Signed lax ds c) : Body (ds ++ r) ↔ Body r :=
  Text.body_append (h.not_mem (by simp)) (h.not_mem (by simp))

lemma unescapeCode_eq_some {seen : List Char} (h : unescapeCode seen r = some s) :
    (∃ ds r' c s', r = ds ++ '\x7d' :: r' ∧ codePoint? (seen.reverse ++ ds) = some c ∧
    unescape r' = some s' ∧ s = c :: s') ∨
    ∃ c, codePoint? (seen.reverse ++ r) = some c ∧ s = [c] := by
  induction r generalizing seen with
  | nil =>
    obtain ⟨c, hc, rfl⟩ := map_eq_some_iff.1 h
    exact .inr ⟨c, by simpa using hc, rfl⟩
  | cons d r ih =>
    by_cases hd : d = '\x7d'
    · subst hd
      obtain ⟨c, hc, hs⟩ := bind_eq_some_iff.1 h
      obtain ⟨s', hs', rfl⟩ := map_eq_some_iff.1 hs
      exact .inl ⟨[], r, c, s', rfl, by simpa using hc, hs', rfl⟩
    · rw [unescapeCode.eq_3 _ _ _ hd] at h
      rcases ih h with ⟨ds, r', c, s', rfl, hc, hs⟩ | ⟨c, hc, rfl⟩
      · exact .inl ⟨d :: ds, r', c, s', rfl, by simpa using hc, hs⟩
      · exact .inr ⟨c, by simpa using hc, rfl⟩

lemma Body.spells (h : Body r) (hs : unescape r = some s) : Spells true r s := by
  induction hn : r.length using Nat.strong_induction_on generalizing r s with
  | _ n ih =>
    cases h with
    | nil =>
      cases hs
      exact .nil
    | @plain c r hquote hslash h =>
      rw [unescape_plain r hslash] at hs
      obtain ⟨s, hs', rfl⟩ := map_eq_some_iff.1 hs
      exact .plain hquote hslash (ih r.length (by grind) h hs' rfl)
    | @escaped c r _ h =>
      by_cases hcode : ∃ r', c = 'u' ∧ r = '\x7b' :: r'
      · obtain ⟨r, rfl, rfl⟩ := hcode
        have hbody : Body (['\x7b'] ++ r) := h
        rw [body_append (by decide) (by decide)] at hbody
        rcases unescapeCode_eq_some hs with ⟨ds, r, c, s, rfl, hc, hs', rfl⟩ | ⟨c, hc, rfl⟩
        · rw [codePoint?_eq_some_iff] at hc
          have hrest : Body (['\x7d'] ++ r) := hc.body_append.1 hbody
          rw [body_append (by decide) (by decide)] at hrest
          exact .code hc (ih r.length (by grind) hrest hs' rfl)
        · exact .last rfl (codePoint?_eq_some_iff.1 hc)
      · rw [unescape] at hs
        · obtain ⟨d, hd, hs⟩ := bind_eq_some_iff.1 hs
          obtain ⟨s, hs', rfl⟩ := map_eq_some_iff.1 hs
          exact .short (shortEscape?_eq_some_iff.1 hd) (ih r.length (by grind) h hs' rfl)
        · grind

/-! ## Writing -/

lemma Spells.cons_escapeChar (h : Spells lax r s) (c : Char) :
    Spells lax (escapeChar c ++ r) (c :: s) := by
  fun_cases escapeChar c with
  | case1 | case2 | case3 | case4 | case5 | case6 =>
    subst_vars
    exact .short (by simp) h
  | case7 =>
    have hcode := code (.inl (names_hexadecimal c)) h
    simpa [codePointEscape] using hcode
  | case8 _ _ _ _ hquote hslash _ => exact .plain hquote hslash h

lemma spells_escape (cs : List Char) : Spells lax (escape cs) cs := by
  induction cs with
  | nil => exact .nil
  | cons c cs ih => exact ih.cons_escapeChar c

lemma Spells.body (h : Spells lax r s) : Body r := by
  induction h with
  | nil => exact .nil
  | plain hquote hslash _ ih => exact .plain hquote hslash ih
  | short he _ ih =>
    refine .escaped ?_ ih
    rintro rfl
    revert he
    simp
  | code hc _ ih =>
    refine .escaped (by decide) (.plain (by decide) (by decide) ?_)
    rw [hc.body_append]
    exact .plain (by decide) (by decide) ih
  | @last c ds _ hc =>
    refine .escaped (by decide) (.plain (by decide) (by decide) ?_)
    rw [← append_nil ds, hc.body_append]
    exact .nil

end Text

namespace LexClass

open Text

lemma strReach_plain {c : Char} (r : List Char) (hquote : c ≠ '"') (hslash : c ≠ '\\') :
    strReach (c :: r) = ((strReach r).1 + 1, (strReach r).2) := by
  rw [strReach]
  all_goals simp_all

lemma strReach_body {b : List Char} (h : Body b) (r : List Char) :
    strReach (b ++ '"' :: r) = (b.length + 1, true) := by
  induction h with
  | nil => rfl
  | plain hquote hslash _ ih => simp [strReach_plain _ hquote hslash, ih]
  | escaped hline _ ih => simp [strReach, hline, ih]

lemma exists_body {w : List Char} (h : (strReach w).2) : ∃ b r, Body b ∧ w = b ++ '"' :: r := by
  fun_induction strReach w with
  | case1 | case3 | case4 => simp at h
  | case2 r => exact ⟨[], r, .nil, rfl⟩
  | case5 c r hc n closed hreach ih =>
    obtain ⟨b, r', hb, rfl⟩ := ih (by simpa [hreach] using h)
    exact ⟨_, r', .escaped hc hb, rfl⟩
  | case6 c r hquote hnil hslash n closed hreach ih =>
    obtain ⟨b, r', hb, rfl⟩ := ih (by simpa [hreach] using h)
    have hc : c ≠ '\\' := by
      rintro rfl
      cases b <;> exact hslash _ _ rfl rfl
    exact ⟨_, r', .plain hquote hc hb, rfl⟩

end LexClass

end Resolvent
