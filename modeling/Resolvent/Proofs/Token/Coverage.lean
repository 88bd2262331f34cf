import Resolvent.Proofs.Token.Lexing
import Mathlib.Data.List.Pairwise

/-!
# What lexing covers

Lexemes follow each other without a gap, so what is under no token and under no bad stretch has been
skipped: blanks and comments.
-/

namespace Resolvent

open LexClass
open List hiding length

variable {cs v w r : List Char} {i offset : Nat} {l : Lexeme} {s : Span} {ls : List (Lexeme × Span)}
  {bs : List Span}

/-! ## Cuts between characters -/

@[simp] lemma byteLength_append (v w : List Char) :
    byteLength (v ++ w) = byteLength v + byteLength w := by
  induction v with
  | nil => simp [byteLength]
  | cons c v ih => simp [byteLength, ih, Nat.add_assoc]

lemma byteLength_pos (hw : w ≠ []) : 0 < byteLength w := by
  cases w with
  | nil => exact absurd rfl hw
  | cons c w => exact Nat.add_pos_left c.utf8Size_pos _

lemma dropBytes_append (v w : List Char) : dropBytes (byteLength v) (v ++ w) = some w := by
  induction v with
  | nil => cases w <;> rfl
  | cons c v ih =>
    obtain ⟨n, hn⟩ := Nat.exists_eq_add_one_of_ne_zero (byteLength_pos (cons_ne_nil c v)).ne'
    rw [cons_append, hn, dropBytes]
    simp only [byteLength] at hn
    rw [if_pos (by omega), ← hn, Nat.add_sub_cancel_left, ih]

lemma takeBytes_append (v w : List Char) : takeBytes (byteLength v) (v ++ w) = some v := by
  induction v with
  | nil => cases w <;> rfl
  | cons c v ih =>
    obtain ⟨n, hn⟩ := Nat.exists_eq_add_one_of_ne_zero (byteLength_pos (cons_ne_nil c v)).ne'
    rw [cons_append, hn, takeBytes]
    simp only [byteLength] at hn
    rw [if_pos (by omega), ← hn, Nat.add_sub_cancel_left, ih, Option.map_some]

namespace Span

/-- The byte is under the span. -/
def Covers (s : Span) (i : Nat) : Prop := s.start ≤ i ∧ i < s.stop

/-- The span of the text `w` behind `v`. -/
def behind (v w : List Char) : Span := ⟨byteLength v, byteLength (v ++ w)⟩

lemma slice_behind (v w r : List Char) : (behind v w).slice (v ++ w ++ r) = w := by
  simp [slice, behind, dropBytes_append, takeBytes_append]

end Span

/-! ## Lexemes follow each other -/

lemma length_firstLexeme (hcs : cs ≠ []) : 0 < (firstLexeme cs).2 ∧
    (firstLexeme cs).2 ≤ cs.length := by
  have hpos := length_pos_iff.2 hcs
  have hbad : 0 < badLength cs ∧ badLength cs ≤ cs.length := by
    fun_cases badLength cs with
    | case1 r =>
      have hle := strReach_le r
      grind
    | case2 => omega
  unfold firstLexeme
  split
  · exact hbad
  · next k n hlongest =>
    obtain ⟨-, hn, hle⟩ := length_of_longest hlongest
    grind

lemma forall_of_run {p : Char → Bool} (h : run p (w ++ r) = w.length) : ∀ c ∈ w, p c := by
  have hchars := (runs_run (p := p) fun _ hc => hc).chars (w ++ r)
  rwa [h, take_left] at hchars

lemma of_firstLexeme_skipped (hw : w ≠ []) (h : firstLexeme (w ++ r) = (.skipped, w.length)) :
    (∀ c ∈ w, isBlank c) ∨ ∃ u, w = ';' :: u ∧ '\n' ∉ u := by
  obtain ⟨k, hlongest, hskip⟩ : ∃ k, longest (w ++ r) = some (k, w.length) ∧ k.isSkipped := by
    unfold firstLexeme at h
    grind
  have hlen := (length_of_longest hlongest).1
  cases k with
  | blank => exact .inl (forall_of_run hlen)
  | comment =>
    obtain ⟨c, u, rfl⟩ := exists_cons_of_ne_nil hw
    obtain rfl : c = ';' := by
      by_contra hc
      simp [length_cons_of_admits (k := comment) (fun _ => rfl) c, hc] at hlen
    have hrun : run (· != '\n') (u ++ r) = u.length := by
      simp only [cons_append, length_comment, length_cons] at hlen
      omega
    exact .inr ⟨u, rfl, fun hmem => absurd (forall_of_run hrun _ hmem) (by decide)⟩
  | _ => simp [isSkipped] at hskip

inductive Tiles : List Char → List Char → List (Lexeme × Span) → Prop
  | nil {v : List Char} : Tiles v [] []
  | cons {v w r : List Char} {l : Lexeme} {ls : List (Lexeme × Span)} (hw : w ≠ [])
      (h : firstLexeme (w ++ r) = (l, w.length))
      (hr : Tiles (v ++ w) r ls) : Tiles v (w ++ r) ((l, .behind v w) :: ls)

lemma tiles_lexemes (v cs : List Char) : Tiles v cs (lexemes (byteLength v) cs) := by
  induction hn : cs.length using Nat.strong_induction_on generalizing v cs with
  | _ n ih =>
    by_cases hcs : cs = []
    · subst hcs
      rw [lexemes]
      exact .nil
    · obtain ⟨hpos, hle⟩ := length_firstLexeme hcs
      obtain ⟨w, r, rfl, hw⟩ : ∃ w r, cs = w ++ r ∧ w.length = (firstLexeme cs).2 :=
        ⟨_, _, (take_append_drop (firstLexeme cs).2 cs).symm, length_take_of_le hle⟩
      have hne : w ≠ [] := length_pos_iff.1 (by omega)
      have hfirst : firstLexeme (w ++ r) = ((firstLexeme (w ++ r)).1, w.length) := by rw [hw]
      rw [Token.lexemes_append hfirst hne, ← byteLength_append]
      exact .cons hne hfirst (ih r.length (by simp at hn; omega) (v ++ w) r rfl)

namespace Tiles

variable (h : Tiles v cs ls)
include h

lemma of_mem (hl : (l, s) ∈ ls) : ∃ p w q, v ++ cs = p ++ w ++ q ∧ w ≠ [] ∧ s = .behind p w ∧
    firstLexeme (w ++ q) = (l, w.length) ∧ byteLength v ≤ byteLength p := by
  induction h with
  | nil => simp at hl
  | @cons v w r l' ls hw hfirst hr ih =>
    rcases mem_cons.1 hl with heq | hmem
    · obtain ⟨rfl, rfl⟩ := Prod.mk.inj heq
      exact ⟨v, w, r, (append_assoc ..).symm, hw, rfl, hfirst, le_rfl⟩
    · obtain ⟨p, u, q, hsource, hu, hs, hfirst', hle⟩ := ih hmem
      rw [byteLength_append] at hle
      exact ⟨p, u, q, by rw [← hsource, append_assoc], hu, hs, hfirst', by omega⟩

lemma start_lt_stop (hl : (l, s) ∈ ls) : s.start < s.stop := by
  obtain ⟨p, w, q, -, hw, rfl, -⟩ := h.of_mem hl
  have hpos := byteLength_pos hw
  simp only [Span.behind, byteLength_append]
  omega

lemma ordered : ls.Pairwise fun a b => a.2.stop ≤ b.2.start := by
  induction h with
  | nil => exact .nil
  | @cons v w r l ls hw hfirst hr ih =>
    refine .cons (fun b hb => ?_) ih
    obtain ⟨p, u, q, -, -, hb, -, hle⟩ := hr.of_mem hb
    rw [hb]
    exact hle

lemma eq_of_covers {a b : Lexeme × Span} (ha : a ∈ ls) (hb : b ∈ ls) (hai : a.2.Covers i)
    (hbi : b.2.Covers i) : a = b := by
  by_contra hne
  have hsymm : Std.Symm fun a b : Lexeme × Span => a.2.stop ≤ b.2.start ∨ b.2.stop ≤ a.2.start :=
    ⟨fun _ _ => Or.symm⟩
  have hdisjoint := (h.ordered.imp (S := fun a b => a.2.stop ≤ b.2.start ∨
    b.2.stop ≤ a.2.start) .inl).forall ha hb hne
  simp only [Span.Covers] at hai hbi
  omega

lemma exists_lexeme {a b : List Char} {c : Char} (hcs : cs = a ++ c :: b) : ∃ l p w₁ w₂ q,
    (l, Span.behind p (w₁ ++ c :: w₂)) ∈ ls ∧ v ++ a = p ++ w₁ ∧
    firstLexeme (w₁ ++ c :: w₂ ++ q) = (l, (w₁ ++ c :: w₂).length) := by
  induction h generalizing a with
  | nil => simp at hcs
  | @cons v w r l ls hw hfirst hr ih =>
    have hlater (a' : List Char) (hr' : r = a' ++ c :: b) (ha : a = w ++ a') : ∃ l' p w₁ w₂ q,
        (l', Span.behind p (w₁ ++ c :: w₂)) ∈ (l, Span.behind v w) :: ls ∧ v ++ a = p ++ w₁ ∧
        firstLexeme (w₁ ++ c :: w₂ ++ q) = (l', (w₁ ++ c :: w₂).length) := by
      obtain ⟨l', p, w₁, w₂, q, hmem, hp, hfirst'⟩ := ih hr'
      exact ⟨l', p, w₁, w₂, q, mem_cons_of_mem _ hmem, by rw [← hp, ha, append_assoc], hfirst'⟩
    rcases append_eq_append_iff.1 hcs with ⟨a', ha, hr'⟩ | ⟨w₂, rfl, hb⟩
    · exact hlater a' hr' ha
    · cases w₂ with
      | nil => exact hlater [] hb.symm (by simp)
      | cons d w₂ =>
        obtain ⟨rfl, -⟩ := cons.inj hb
        exact ⟨l, v, a, w₂, r, mem_cons_self, rfl, hfirst⟩

end Tiles

/-! ## What is gathered -/

lemma joinAdjacent_spec (hs : s.start < s.stop)
    (hbs : ∀ b ∈ bs, b.start < b.stop ∧ b.stop ≤ s.start)
    (hsep : bs.Pairwise fun a b => b.stop < a.start) :
    (joinAdjacent bs s).Pairwise (fun a b => b.stop < a.start) ∧
    (∀ b ∈ joinAdjacent bs s, (∃ a ∈ s :: bs, b.start = a.start) ∧
    (∃ a ∈ s :: bs, b.stop = a.stop) ∧ b.start < b.stop) ∧
    ∀ i, (∃ b ∈ joinAdjacent bs s, b.Covers i) ↔ ∃ b ∈ s :: bs, b.Covers i := by
  fun_cases joinAdjacent bs s with
  | case1 last rest heq =>
    obtain ⟨hlast, hrest⟩ := pairwise_cons.1 hsep
    have hpos := hbs last (by simp)
    have hmerge : last.merge s = ⟨last.start, s.stop⟩ := by
      rw [Span.merge, min_eq_left (by omega), max_eq_right (by omega)]
    rw [hmerge]
    refine ⟨pairwise_cons.2 ⟨hlast, hrest⟩, ?_, ?_⟩
    · simp only [mem_cons]
      grind
    · simp only [mem_cons, Span.Covers, exists_eq_or_imp]
      grind
  | case2 last rest hne =>
    have hlast := (pairwise_cons.1 hsep).1
    refine ⟨pairwise_cons.2 ⟨?_, hsep⟩, ?_, fun i => Iff.rfl⟩
    · grind
    · grind
  | case3 => simpa using hs

lemma joined_spec (hord : bs.Pairwise fun a b => a.stop ≤ b.start)
    (hpos : ∀ b ∈ bs, b.start < b.stop) :
    (bs.foldl joinAdjacent []).Pairwise (fun a b => b.stop < a.start) ∧
    (∀ b ∈ bs.foldl joinAdjacent [], (∃ a ∈ bs, b.start = a.start) ∧ (∃ a ∈ bs, b.stop = a.stop) ∧
      b.start < b.stop) ∧
    ∀ i, (∃ b ∈ bs.foldl joinAdjacent [], b.Covers i) ↔ ∃ b ∈ bs, b.Covers i := by
  induction bs using List.reverseRecOn with
  | nil => simp
  | append_singleton bs s ih =>
    obtain ⟨hord, -, hs⟩ := pairwise_append.1 hord
    obtain ⟨hsep, hends, hcovers⟩ := ih hord fun b hb => hpos b (mem_append_left _ hb)
    have hearlier : ∀ b ∈ bs.foldl joinAdjacent [], b.start < b.stop ∧ b.stop ≤ s.start := by
      intro b hb
      obtain ⟨-, ⟨a, ha, hstop⟩, hlt⟩ := hends b hb
      exact ⟨hlt, hstop ▸ hs a ha s (by simp)⟩
    obtain ⟨hsep', hends', hcovers'⟩ := joinAdjacent_spec (hpos s (by simp)) hearlier hsep
    rw [foldl_append, foldl_cons, foldl_nil]
    refine ⟨hsep', fun b hb => ?_, fun i => ?_⟩
    · obtain ⟨⟨a, ha, hstart⟩, ⟨a', ha', hstop⟩, hlt⟩ := hends' b hb
      grind
    · rw [hcovers' i]
      simp [or_and_right, exists_or, hcovers i, or_comm]

namespace Token

lemma mem_bad : s ∈ ls.filterMap badOf ↔ (.bad, s) ∈ ls := by
  rw [mem_filterMap]
  constructor
  · rintro ⟨⟨l, _⟩, hl, h⟩
    cases l <;> cases h
    exact hl
  · exact fun h => ⟨_, h, rfl⟩

/-- The spans of the tokens and the bad stretches of a source. -/
def marks (source : List Char) : List Span := (lex source).1.map (·.2) ++ (lex source).2

lemma tiles_source (source : List Char) : Tiles [] source (lexemes 0 source) :=
  tiles_lexemes [] source

lemma start_lt_stop_of_bad {source : List Char} (h : s ∈ (lexemes 0 source).filterMap badOf) :
    s.start < s.stop :=
  (tiles_source source).start_lt_stop (mem_bad.1 h)

lemma snd_of_tokenOf {l : Lexeme × Span} {t : Token × Span} (h : tokenOf l = some t) :
    t.2 = l.2 := by
  obtain ⟨l, s⟩ := l
  cases l <;> cases h
  rfl

lemma eq_of_badOf {l : Lexeme × Span} (h : badOf l = some s) : s = l.2 := by
  obtain ⟨l, s⟩ := l
  cases l <;> cases h
  rfl

lemma bad_ordered (source : List Char) :
    ((lexemes 0 source).filterMap badOf).Pairwise fun a b => a.stop ≤ b.start := by
  refine (tiles_source source).ordered.filterMap _ fun a b hab s hs s' hs' => ?_
  rw [eq_of_badOf hs, eq_of_badOf hs']
  exact hab

section

variable {source : List Char} (hsize : byteLength source < 2 ^ 32)
include hsize

lemma wrap_lexemes : (lexemes 0 source).map (Prod.map id Span.wrap) = lexemes 0 source := by
  refine (map_congr_left fun l hl => ?_).trans (map_id _)
  obtain ⟨l, s⟩ := l
  obtain ⟨p, w, q, hsource, -, rfl, -⟩ := (tiles_source source).of_mem hl
  rw [nil_append] at hsource
  simp only [hsource, byteLength_append] at hsize
  simp only [Prod.map, Span.wrap, UInt32.size, Span.behind, byteLength_append, id]
  rw [Nat.mod_eq_of_lt (by omega), Nat.mod_eq_of_lt (by omega)]

lemma lex_eq : lex source = ((lexemes 0 source).filterMap tokenOf,
    (((lexemes 0 source).filterMap badOf).foldl joinAdjacent []).reverse) := by
  rw [lex, wrap_lexemes hsize]

lemma tokens_ordered : ((lex source).1.map (·.2)).Pairwise fun a b => a.stop ≤ b.start := by
  rw [lex_eq hsize, pairwise_map]
  refine (tiles_source source).ordered.filterMap _ fun a b hab t ht u hu => ?_
  rw [snd_of_tokenOf ht, snd_of_tokenOf hu]
  exact hab

lemma joined_bad : (lex source).2.Pairwise (fun a b => a.stop < b.start) ∧
    (∀ b ∈ (lex source).2, (∃ a, (.bad, a) ∈ lexemes 0 source ∧ b.start = a.start) ∧
      (∃ a, (.bad, a) ∈ lexemes 0 source ∧ b.stop = a.stop) ∧ b.start < b.stop) ∧
    ∀ i, (∃ b ∈ (lex source).2, b.Covers i) ↔ ∃ b, (.bad, b) ∈ lexemes 0 source ∧ b.Covers i := by
  have hspec := joined_spec (bad_ordered source) fun b hb => start_lt_stop_of_bad hb
  simpa only [lex_eq hsize, mem_bad, mem_reverse, pairwise_reverse] using hspec

lemma mem_marks : s ∈ marks source ↔ (∃ t, (.token t, s) ∈ lexemes 0 source) ∨
    s ∈ (lex source).2 := by
  simp only [marks, mem_append, List.mem_map, lex_eq hsize]
  refine or_congr_left ⟨?_, ?_⟩
  · rintro ⟨⟨t, _⟩, ht, rfl⟩
    exact ⟨t, mem_tokens.1 ht⟩
  · rintro ⟨t, ht⟩
    exact ⟨(t, s), mem_tokens.2 ht, rfl⟩

lemma exists_lexeme_of_marks (hs : s ∈ marks source) (hi : s.Covers i) :
    ∃ l s, (l, s) ∈ lexemes 0 source ∧ l ≠ .skipped ∧ s.Covers i := by
  rcases (mem_marks hsize).1 hs with ⟨t, ht⟩ | hbad
  · exact ⟨.token t, s, ht, by simp, hi⟩
  · obtain ⟨a, ha, hai⟩ := ((joined_bad hsize).2.2 i).1 ⟨s, hbad, hi⟩
    exact ⟨.bad, a, ha, by simp, hai⟩

lemma exists_marks_of_lexeme (hl : (l, s) ∈ lexemes 0 source) (hskip : l ≠ .skipped)
    (hi : s.Covers i) : ∃ s ∈ marks source, s.Covers i := by
  cases l with
  | skipped => exact absurd rfl hskip
  | token t => exact ⟨s, (mem_marks hsize).2 (.inl ⟨t, hl⟩), hi⟩
  | bad =>
    obtain ⟨b, hb, hbi⟩ := ((joined_bad hsize).2.2 i).2 ⟨s, hl, hi⟩
    exact ⟨b, (mem_marks hsize).2 (.inr hb), hbi⟩

lemma behind_of_marks (hs : s ∈ marks source) : ∃ v w r, source = v ++ w ++ r ∧ w ≠ [] ∧
    s = .behind v w := by
  rcases (mem_marks hsize).1 hs with ⟨t, ht⟩ | hbad
  · obtain ⟨v, w, r, hsource, hw, hs, -⟩ := (tiles_source source).of_mem ht
    exact ⟨v, w, r, hsource, hw, hs⟩
  · obtain ⟨⟨a, ha, hstart⟩, ⟨b, hb, hstop⟩, hlt⟩ := (joined_bad hsize).2.1 s hbad
    obtain ⟨v, w, r, hsource, -, rfl, -⟩ := (tiles_source source).of_mem ha
    obtain ⟨v', w', r', hsource', -, rfl, -⟩ := (tiles_source source).of_mem hb
    change s.start = byteLength v at hstart
    change s.stop = byteLength (v' ++ w') at hstop
    rw [nil_append] at hsource hsource'
    have hv : v <+: source := ⟨w ++ r, by rw [← append_assoc, ← hsource]⟩
    -- Both ends are the end of a beginning of the source, and of two such beginnings one is a
    -- beginning of the other.
    rcases prefix_or_prefix_of_prefix hv ⟨r', hsource'.symm⟩ with ⟨u, hu⟩ | ⟨u, hu⟩
    · rw [← hu] at hstop hsource'
      refine ⟨v, u, r', hsource', ?_, ?_⟩
      · rintro rfl
        rw [append_nil] at hstop
        omega
      · rw [Span.behind, ← hstart, ← hstop]
    · rw [← hu, byteLength_append] at hstart
      omega

lemma skipped_of_not_marks {before after : List Char} {c : Char}
    (hsource : source = before ++ c :: after)
    (hstart : byteLength before ≤ i) (hstop : i < byteLength before + c.utf8Size)
    (hi : ∀ s ∈ marks source, ¬ s.Covers i) :
    isBlank c ∨ ∃ v w, before ++ [c] = v ++ ';' :: w ∧ '\n' ∉ w ∧
      ∀ j, byteLength v ≤ j → j ≤ i → ∀ s ∈ marks source, ¬ s.Covers j := by
  obtain ⟨l, p, w₁, w₂, q, hmem, hp, hfirst⟩ := (tiles_source source).exists_lexeme hsource
  subst hp
  have hcovers (j : Nat) (hv : byteLength p ≤ j) (hj : j ≤ i) :
    (Span.behind p (w₁ ++ c :: w₂)).Covers j := by
    simp only [Span.Covers, Span.behind, byteLength_append, byteLength] at hstart hstop ⊢
    omega
  obtain rfl : l = .skipped := by
    by_contra hl
    obtain ⟨s, hs, hsi⟩ :=
      exists_marks_of_lexeme hsize hmem hl (hcovers i (by simp at hstart; omega) le_rfl)
    exact hi s hs hsi
  rcases of_firstLexeme_skipped (by simp) hfirst with hblank | ⟨u, hu, hline⟩
  · exact .inl (hblank c (by simp))
  · obtain ⟨w, hw, hsub⟩ : ∃ w, w₁ ++ [c] = ';' :: w ∧ w <+: u := by
      cases w₁ with
      | nil => exact ⟨[], by simp_all, nil_prefix⟩
      | cons d w₁ => exact ⟨w₁ ++ [c], by simp_all, w₂, by simp_all⟩
    refine .inr ⟨p, w, by rw [append_assoc, hw], fun hmem => hline (hsub.subset hmem),
      fun j hv hj s hs hsj => ?_⟩
    obtain ⟨l', s', hmem', hskip, hcov⟩ := exists_lexeme_of_marks hsize hs hsj
    have heq := (tiles_source source).eq_of_covers hmem hmem' (hcovers j hv hj) hcov
    exact hskip (congrArg Prod.fst heq).symm

lemma lex_slice {t : Token} (ht : (t, s) ∈ (lex source).1) :
    lex (s.slice source) = ([(t, ⟨0, byteLength (s.slice source)⟩)], []) := by
  rw [lex_eq hsize] at ht
  obtain ⟨v, w, r, hsource, hw, rfl, hfirst, -⟩ := (tiles_source source).of_mem (mem_tokens.1 ht)
  have hfirst' : firstLexeme w = (.token t, w.length) := by
    simpa using firstLexeme_take hfirst (by simp) le_rfl
  have hslice : (Span.behind v w).slice source = w := by
    rw [← nil_append source, hsource, Span.slice_behind]
  have hsmall : byteLength w < 2 ^ 32 := by
    rw [nil_append] at hsource
    simp only [hsource, byteLength_append] at hsize
    omega
  rw [hslice, lex_eq hsmall, lexemes_single hfirst' hw, Nat.zero_add]
  rfl

/-- Below 4 GiB, tokens and bad stretches cover the source but for blanks and comments. Their spans
are not empty, cut the source between characters, stand in order and do not overlap, and no two bad
stretches are adjacent. Each token is what its part of the source is lexed as alone. -/
theorem lex_covers :
    (∀ s ∈ marks source, s.start < s.stop ∧ ∃ v w r, source = v ++ w ++ r ∧ s = .behind v w) ∧
    ((lex source).1.map (·.2)).Pairwise (fun a b => a.stop ≤ b.start) ∧
    (lex source).2.Pairwise (fun a b => a.stop < b.start) ∧
    (∀ t ∈ (lex source).1, ∀ b ∈ (lex source).2, t.2.stop ≤ b.start ∨ b.stop ≤ t.2.start) ∧
    (∀ before c after i, source = before ++ c :: after → byteLength before ≤ i →
    i < byteLength before + c.utf8Size →
      (∀ s ∈ marks source, ¬ s.Covers i) → isBlank c ∨ ∃ v w, before ++ [c] = v ++ ';' :: w ∧
      '\n' ∉ w ∧ ∀ j, byteLength v ≤ j → j ≤ i → ∀ s ∈ marks source, ¬ s.Covers j) ∧
    ∀ t s, (t, s) ∈ (lex source).1 →
    lex (s.slice source) = ([(t, ⟨0, byteLength (s.slice source)⟩)], []) := by
  refine ⟨fun s hs => ?_, tokens_ordered hsize, (joined_bad hsize).1, ?_, ?_,
    fun t s ht => lex_slice hsize ht⟩
  · obtain ⟨v, w, r, hsource, hw, rfl⟩ := behind_of_marks hsize hs
    have hpos := byteLength_pos hw
    refine ⟨?_, v, w, r, hsource, rfl⟩
    simp only [Span.behind, byteLength_append]
    omega
  · rintro ⟨t, s⟩ ht b hb
    by_contra hoverlap
    simp only [not_or, not_le] at hoverlap
    rw [lex_eq hsize] at ht
    have hmem := mem_tokens.1 ht
    have hlt := (tiles_source source).start_lt_stop hmem
    have hlt' := ((joined_bad hsize).2.1 b hb).2.2
    have hs : s.Covers (max s.start b.start) := ⟨le_max_left _ _, by omega⟩
    obtain ⟨a, ha, hcovers⟩ :=
      ((joined_bad hsize).2.2 (max s.start b.start)).1 ⟨b, hb, le_max_right _ _, by omega⟩
    simpa using (tiles_source source).eq_of_covers hmem ha hs hcovers
  · exact fun before c after i hsource hstart hstop hi =>
      skipped_of_not_marks hsize hsource hstart hstop hi

end

/-- A symbol, a comment and two bad characters. -/
theorem lex_covers_comment : let source := "x;\n##".toList
    lex source = ([(.symbol "x", ⟨0, 1⟩)], [⟨3, 5⟩]) ∧
    lex ((⟨0, 1⟩ : Span).slice source) = ([(.symbol "x", ⟨0, 1⟩)], []) ∧
    (∀ s ∈ marks source, ¬ s.Covers 1) ∧ ∃ v w, ['x', ';'] = v ++ ';' :: w ∧ '\n' ∉ w := by
  intro source
  have hsize : byteLength source < 2 ^ 32 := by decide
  have hlex : lex source = ([(.symbol "x", ⟨0, 1⟩)], [⟨3, 5⟩]) := by
    have hlexemes : lexemes 0 source = [(.token (.symbol "x"), ⟨0, 1⟩), (.skipped, ⟨1, 2⟩),
      (.skipped, ⟨2, 3⟩), (.bad, ⟨3, 4⟩), (.bad, ⟨4, 5⟩)] := by
      have hsource : source = ['x'] ++ ([';'] ++ (['\n'] ++ (['#'] ++ (['#'] ++ [])))) := rfl
      rw [hsource, lexemes_append rfl (by simp), lexemes_append rfl (by simp),
        lexemes_append rfl (by simp),
        lexemes_append rfl (by simp), lexemes_append rfl (by simp), lexemes]
      rfl
    rw [lex_eq hsize, hlexemes]
    rfl
  have hmarks : ∀ s ∈ marks source, ¬ s.Covers 1 := by
    simp [marks, hlex, Span.Covers]
  obtain ⟨-, -, -, -, hgaps, htokens⟩ := lex_covers hsize
  refine ⟨hlex, htokens _ _ (by simp [hlex]), hmarks, ?_⟩
  obtain hblank | ⟨v, w, hv, hw, -⟩ :=
    hgaps ['x'] ';' "\n##".toList 1 rfl (by decide) (by decide) hmarks
  · exact absurd hblank (by decide)
  · exact ⟨v, w, hv, hw⟩

end Token

end Resolvent
