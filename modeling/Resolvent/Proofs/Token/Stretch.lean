import Resolvent.Proofs.Token.Coverage
import Resolvent.Proofs.Token.Nesting

/-!
# Stretches of a source

Tokens that follow each other are lexed alone as they are in their source, so many bytes further on.
-/

namespace Resolvent

open List

variable {cs v w r : List Char} {k : Nat} {l : Lexeme} {s : Span} {ls ls' : List (Lexeme × Span)}

def Span.shift (k : Nat) (s : Span) : Span := ⟨s.start + k, s.stop + k⟩

@[simp] lemma Span.shift_zero : Span.shift 0 = id := rfl

lemma Tiles.split (h : Tiles v cs (ls ++ ls')) (hls : ∀ l ∈ ls, l.1 ≠ .bad) :
    ∃ w r, cs = w ++ r ∧ Tiles v w ls ∧ Tiles (v ++ w) r ls' := by
  induction ls generalizing v cs with
  | nil => exact ⟨[], cs, rfl, .nil, by simpa using h⟩
  | cons l ls ih =>
    cases h with
    | @cons _ u r l _ hu hfirst hr =>
      obtain ⟨w, q, rfl, hw, hq⟩ := ih hr fun l hl => hls l (mem_cons_of_mem _ hl)
      have htake := firstLexeme_take hfirst (hls _ mem_cons_self) (m := (u ++ w).length) (by simp)
      rw [← append_assoc, take_left] at htake
      exact ⟨u ++ w, q, by simp, .cons hu htake hw, by simpa using hq⟩

lemma Tiles.lexemes_eq (h : Tiles v cs ls) (k : Nat) :
    lexemes (byteLength v + k) cs = ls.map (Prod.map id (Span.shift k)) := by
  induction h with
  | nil => simp [lexemes]
  | @cons v w r l ls hw hfirst _ ih =>
    rw [byteLength_append, Nat.add_right_comm] at ih
    rw [Token.lexemes_append hfirst hw, ih]
    simp [Span.shift, Span.behind, Nat.add_right_comm]

namespace Token

variable {a b c : List (Token × Span)}

/-- From the start of the first token to the end of the last. -/
def extent (toks : List (Token × Span)) : Span :=
  ⟨toks.head?.elim 0 (·.2.start), toks.getLast?.elim 0 (·.2.stop)⟩

def Ordered (toks : List (Token × Span)) : Prop :=
  toks.Pairwise fun x y => x.2.start ≤ y.2.start ∧ x.2.stop ≤ y.2.stop

lemma exists_extent (hb : b ≠ []) : ∃ x ∈ b, ∃ y ∈ b, extent b = ⟨x.2.start, y.2.stop⟩ := by
  refine ⟨b.head hb, head_mem hb, b.getLast hb, getLast_mem hb, ?_⟩
  simp [extent, head?_eq_some_head hb, getLast?_eq_some_getLast hb]

lemma Ordered.extent_of_mem (h : Ordered b) {x : Token × Span} (hx : x ∈ b) :
    (extent b).start ≤ x.2.start ∧ x.2.stop ≤ (extent b).stop := by
  constructor
  · cases b with
    | nil => cases hx
    | cons y b =>
      rcases mem_cons.1 hx with rfl | hx
      · exact le_rfl
      · exact ((pairwise_cons.1 h).1 x hx).1
  · rcases eq_nil_or_concat' b with rfl | ⟨b, y, rfl⟩
    · cases hx
    · simp only [extent, getLast?_concat]
      rcases mem_append.1 hx with hx | hx
      · exact ((pairwise_append.1 h).2.2 x hx y (by simp)).2
      · rw [mem_singleton.1 hx]
        exact le_rfl

lemma Ordered.extent_le (h : Ordered a) (hb : b ≠ []) (hsub : b ⊆ a) :
    (extent a).start ≤ (extent b).start ∧ (extent b).stop ≤ (extent a).stop := by
  obtain ⟨x, hx, y, hy, hextent⟩ := exists_extent hb
  rw [hextent]
  exact ⟨(h.extent_of_mem (hsub hx)).1, (h.extent_of_mem (hsub hy)).2⟩

lemma Ordered.extent_append (h : Ordered (a ++ (b ++ c))) (ha : a ≠ []) (hc : c ≠ []) :
    extent (a ++ (b ++ c)) = (extent a).merge (extent c) := by
  have hfirst := h.extent_le ha (by simp)
  have hlast := h.extent_le hc (by simp)
  have hstart : (extent (a ++ (b ++ c))).start = (extent a).start := by
    simp [extent, head?_append_of_ne_nil _ ha]
  have hstop : (extent (a ++ (b ++ c))).stop = (extent c).stop := by
    simp [extent, getLast?_eq_some_getLast hc]
  rw [hstart] at hlast
  rw [hstop] at hfirst
  rw [Span.merge, min_eq_left hlast.1, max_eq_right hfirst.2, ← hstart, ← hstop]

end Token

end Resolvent
