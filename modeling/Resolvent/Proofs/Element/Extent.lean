import Resolvent.Proofs.Element.RoundTrip
import Resolvent.Proofs.Token.Stretch

/-!
# Where elements stand

An element stands on tokens that follow each other, and its span goes from the first of them to the
last.
-/

namespace Resolvent

open Token TokenTree
open List hiding lex

inductive Laid {α β : Type} (R : List α → β → Prop) : List α → List β → Prop
  | nil : Laid R [] []
  | cons {a b y ys} (h : R a y) (hs : Laid R b ys) : Laid R (a ++ b) (y :: ys)

namespace Laid

variable {α β γ : Type} {R : List α → β → Prop} {xs xs' : List α} {ys ys' : List β} {y : β}

lemma append (h : Laid R xs ys) (h' : Laid R xs' ys') : Laid R (xs ++ xs') (ys ++ ys') := by
  induction h with
  | nil => exact h'
  | cons h _ ih => simpa using cons h ih

lemma single (h : Laid R xs [y]) : R xs y := by
  cases h with
  | cons h hs =>
    cases hs
    rwa [append_nil]

lemma split (h : Laid R xs (ys ++ ys')) : ∃ a b, xs = a ++ b ∧ Laid R a ys ∧ Laid R b ys' := by
  induction ys generalizing xs with
  | nil => exact ⟨[], xs, rfl, .nil, h⟩
  | cons y ys ih =>
    cases h with
    | cons h hs =>
      obtain ⟨a, b, rfl, ha, hb⟩ := ih hs
      exact ⟨_, b, (append_assoc ..).symm, .cons h ha, hb⟩

lemma map {S : List α → γ → Prop} {f : β → γ} (h : Laid R xs ys) (hf : ∀ a y, R a y → S a (f y)) :
    Laid S xs (ys.map f) := by
  induction h with
  | nil => exact .nil
  | cons h _ ih => exact .cons (hf _ _ h) ih

lemma comp {S : List β → γ → Prop} {zs : List γ} (h : Laid R xs ys) (h' : Laid S ys zs) :
    Laid (fun a z => ∃ b, Laid R a b ∧ S b z) xs zs := by
  induction h' generalizing xs with
  | nil =>
    cases h
    exact .nil
  | cons hz _ ih =>
    obtain ⟨a, b, rfl, ha, hb⟩ := h.split
    exact .cons ⟨_, ha, hz⟩ (ih hb)

lemma of_mem (h : Laid R xs ys) (hy : y ∈ ys) : ∃ a b c, xs = a ++ (b ++ c) ∧ R b y := by
  obtain ⟨before, after, rfl⟩ := append_of_mem hy
  obtain ⟨a, rest, rfl, -, hrest⟩ := h.split
  cases hrest with
  | @cons b c _ _ hb _ => exact ⟨a, b, c, rfl, hb⟩

end Laid

namespace Form

mutual

/-- The form with all spans `k` bytes further on. -/
def shift (k : Nat) : Form → Form
  | literal v s => literal v (s.shift k)
  | name n d s => name n d (s.shift k)
  | tag n none s => tag n none (s.shift k)
  | tag n (some f) s => tag n (some (f.shift k)) (s.shift k)
  | decl n args s => decl n (shiftAll k args) (s.shift k)
  | expr items s => expr (shiftAll k items) (s.shift k)
  | call c groups sig s => call c (shiftGroups k groups) sig (s.shift k)

def shiftAll (k : Nat) : List Form → List Form
  | [] => []
  | f :: fs => f.shift k :: shiftAll k fs

def shiftGroups (k : Nat) : List (List Form) → List (List Form)
  | [] => []
  | fs :: gs => shiftAll k fs :: shiftGroups k gs

end

def parts : Form → List Form
  | literal _ _ | name _ _ _ | tag _ none _ => []
  | tag _ (some f) _ => [f]
  | decl _ args _ => args
  | expr items _ => items
  | call _ groups _ _ => groups.flatten

/-- The element is one of the forms or somewhere below one. -/
inductive Below (forms : List Form) : Form → Prop
  | top {f} (h : f ∈ forms) : Below forms f
  | part {f p} (h : Below forms f) (hp : p ∈ f.parts) : Below forms p

/-! ## Siblings taken together -/

/-- Siblings that a declaration may take as one argument. -/
inductive Simple : List Sibling → Form → Prop
  | one (f : Form) : Simple [.ordinary f] f
  | tag (n : String) (span : Span) : Simple [.tag n span] (.tag n none span)
  | tagged (n : String) (span : Span) (f : Form) :
      Simple [.tag n span, .ordinary f] (.tag n (some f) (span.merge f.span))

inductive Makes : List Sibling → Form → Prop
  | simple {ss f} (h : Simple ss f) : Makes ss f
  | naked (span : Span) : Makes [.naked span] (.decl "" [] span)
  | decl {ss loose} (n : String) (span : Span) (h : ss.foldr Grouping.add {} = ⟨loose, []⟩)
      (hargs : Laid Simple ss (loose.map (·.1))) : Makes (.decl n span :: ss)
      (.decl n (loose.map (·.1)) (match (loose.map (·.1)).getLast? with
          | some last => span.merge last.lastSpan
          | none => span))

/-- Siblings that are taken together so far, flagged if a tag could take them. -/
def Takes (ss : List Sibling) (f : Form × Bool) : Prop :=
  Simple ss f.1 ∧ (f.2 → ss = [.ordinary f.1])

variable {source v w r : List Char} {toks a b c : List (Token × Span)} {ts : List TokenTree}
  {ss : List Sibling} {f p : Form} {s : Sibling}

lemma Makes.group_eq (h : Makes ss f) : group ss = [f] := by
  cases h with
  | simple h => cases h <;> rfl
  | naked => rfl
  | decl n span h =>
    rw [group, foldr_cons, h]
    rfl

lemma exists_laid (ss : List Sibling) : ∃ xs ys, ss = xs ++ ys ∧
    xs.foldr Grouping.add {} = ⟨(ss.foldr Grouping.add {}).loose, []⟩ ∧
    Laid Takes xs (ss.foldr Grouping.add {}).loose ∧
    Laid Makes ys (ss.foldr Grouping.add {}).settled := by
  induction ss with
  | nil => exact ⟨[], [], rfl, rfl, .nil, .nil⟩
  | cons s ss ih =>
    obtain ⟨xs, ys, rfl, hfold, hloose, hsettled⟩ := ih
    have hcons : (s :: xs).foldr Grouping.add {} =
      Grouping.add s ⟨((xs ++ ys).foldr Grouping.add {}).loose, []⟩ := by
      rw [foldr_cons, hfold]
    rw [foldr_cons]
    generalize (xs ++ ys).foldr Grouping.add {} = g at *
    obtain ⟨loose, settled⟩ := g
    cases s with
    | ordinary f =>
      have hnew : Laid Takes ([.ordinary f] ++ xs) ((f, true) :: loose) :=
        .cons ⟨.one f, fun _ => rfl⟩ hloose
      exact ⟨_, ys, rfl, hcons, hnew, hsettled⟩
    | tag n span =>
      have hnew : Laid Takes ([.tag n span] ++ xs) ((.tag n none span, false) :: loose) :=
        .cons ⟨.tag n span, by simp⟩ hloose
      rcases loose with _ | ⟨⟨f, _ | _⟩, rest⟩
      · exact ⟨_, ys, rfl, hcons, hnew, hsettled⟩
      · exact ⟨_, ys, rfl, hcons, hnew, hsettled⟩
      · cases hloose with
        | cons h hrest =>
          obtain rfl := h.2 rfl
          have hpair : Takes [.tag n span, .ordinary f] (.tag n (some f) (span.merge f.span),
            false) := ⟨.tagged n span f, by simp⟩
          exact ⟨_, ys, rfl, hcons, .cons hpair hrest, hsettled⟩
    | decl n span =>
      have hargs : Laid Simple xs (loose.map (·.1)) := hloose.map fun _ _ h => h.1
      exact ⟨[], .decl n span :: xs ++ ys, rfl, rfl, .nil,
        .cons (.decl n span hfold hargs) hsettled⟩
    | naked span =>
      have hothers : Laid Makes xs (loose.map (·.1)) := hloose.map fun _ _ h => .simple h.1
      have hnew : Laid Makes ([.naked span] ++ (xs ++ ys))
        (.decl "" [] span :: (loose.map (·.1) ++ settled)) :=
        .cons (.naked span) (hothers.append hsettled)
      exact ⟨[], _, rfl, rfl, .nil, hnew⟩

lemma laid_group (ss : List Sibling) : Laid Makes ss (group ss) := by
  obtain ⟨xs, ys, hss, -, hloose, hsettled⟩ := exists_laid ss
  nth_rewrite 1 [hss]
  exact (hloose.map fun _ _ h => .simple h.1).append hsettled

/-! ## Tokens -/

/-- The tokens nest to one tree, which is read as the sibling. -/
def Spells (source : List Char) (toks : List (Token × Span)) (s : Sibling) : Prop :=
  ∃ t, Nests toks [t] ∧ ReadsAs source t s

def Stands (source : List Char) (toks : List (Token × Span)) (f : Form) : Prop :=
  ∃ ss, Laid (Spells source) toks ss ∧ Makes ss f

lemma laid_spells (h : Nests toks ts) (hss : readSiblings source ts = .ok ss) :
    Laid (Spells source) toks ss := by
  induction h generalizing ss with
  | nil =>
    cases hss
    exact .nil
  | leaf span ht _ ih =>
    obtain ⟨s, rest, hs, hrest, rfl⟩ := readSiblings_cons_eq_ok.1 hss
    exact .cons ⟨_, .leaf span ht .nil, readSibling_eq_ok.1 hs⟩ (ih hrest)
  | group b s₁ s₂ hin _ _ ih =>
    obtain ⟨s, rest, hs, hrest, rfl⟩ := readSiblings_cons_eq_ok.1 hss
    simpa using Laid.cons ⟨_, .group b s₁ s₂ hin .nil, readSibling_eq_ok.1 hs⟩ (ih hrest)

lemma laid_stands (h : Nests toks ts) (hss : readSiblings source ts = .ok ss) :
    Laid (Stands source) toks (group ss) :=
  (laid_spells h hss).comp (laid_group ss)

lemma Spells.ne_nil (h : Spells source toks s) : toks ≠ [] := by
  rintro rfl
  obtain ⟨t, ht, -⟩ := h
  cases ht

lemma Stands.ne_nil (h : Stands source toks f) : toks ≠ [] := by
  obtain ⟨ss, hss, hmakes⟩ := h
  cases hss with
  | nil => exact absurd hmakes.group_eq (by simp [group, Grouping.finish])
  | cons h _ => exact append_ne_nil_of_left_ne_nil h.ne_nil _

lemma Stands.part (h : Stands source toks f) (hp : p ∈ f.parts) : ∃ a b c, toks = a ++ (b ++ c) ∧
    Stands source b p := by
  obtain ⟨ss, hss, hmakes⟩ := h
  cases hmakes with
  | naked => simp [parts] at hp
  | decl n span hfold hargs =>
    cases hss with
    | @cons first rest _ _ hfirst hrest =>
      obtain ⟨a, b, c, rfl, xs, hxs, hsimple⟩ := (hrest.comp hargs).of_mem hp
      exact ⟨first ++ a, b, c, by simp, xs, hxs, .simple hsimple⟩
  | simple h =>
    cases h with
    | tag => simp [parts] at hp
    | tagged n span f =>
      obtain rfl : p = f := by simpa [parts] using hp
      cases hss with
      | @cons first rest _ _ hfirst hrest =>
        exact ⟨first, rest, [], by simp, _, hrest, .simple (.one p)⟩
    | one f =>
      obtain ⟨t, ht, hread⟩ := hss.single
      cases hread with
      | literal | typ | symbol | path => simp [parts] at hp
      | expr span hhead hread =>
        cases ht with
        | group _ s₁ s₂ hin hnil =>
          cases hnil
          obtain ⟨a, b, c, rfl, hb⟩ := (laid_stands hin hread).of_mem hp
          exact ⟨(.opening .round, s₁) :: a, b, c ++ [(.closing .round, s₂)], by simp, hb⟩

lemma Below.stands {forms : List Form} (h : Below forms f)
    (hlaid : Laid (Stands source) toks forms) :
    ∃ a b c, toks = a ++ (b ++ c) ∧ Stands source b f := by
  induction h with
  | top h => exact hlaid.of_mem h
  | part _ hp ih =>
    obtain ⟨a, _, c, rfl, hf⟩ := ih
    obtain ⟨a', b, c', rfl, hb⟩ := hf.part hp
    exact ⟨a ++ a', b, c' ++ c, by simp, hb⟩

/-! ## Spans -/

def Sibling.span : Sibling → Span
  | tag _ s | decl _ s | naked s => s
  | ordinary f => f.span

lemma Spells.span_eq (h : Spells source toks s) (hord : Ordered toks) : s.span = extent toks := by
  obtain ⟨t, ht, hread⟩ := h
  have hs : s.span = t.span := by cases hread <;> rfl
  rw [hs]
  cases ht with
  | leaf span _ hnil =>
    cases hnil
    rfl
  | @group inner _ _ _ b s₁ s₂ _ hnil =>
    cases hnil
    exact (hord.extent_append (a := [_]) (by simp) (by simp)).symm

lemma Simple.span_eq (h : Simple ss f) (hss : Laid (Spells source) toks ss) (hord : Ordered toks) :
    f.span = extent toks := by
  cases h with
  | one | tag => exact hss.single.span_eq hord
  | tagged n span f =>
    cases hss with
    | @cons a b _ _ ha hb =>
      have hmerge := hord.extent_append (b := []) ha.ne_nil hb.single.ne_nil
      rw [← ha.span_eq (pairwise_append.1 hord).1, ← hb.single.span_eq (pairwise_append.1 hord).2.1]
        at hmerge
      exact hmerge.symm

lemma Simple.exists_lastSpan (h : Simple ss f) (hss : Laid (Spells source) toks ss)
    (hord : Ordered toks) : ∃ a b, toks = a ++ b ∧ b ≠ [] ∧ f.lastSpan = extent b := by
  cases h with
  | one f =>
    have hf : f.lastSpan = f.span := by
      obtain ⟨t, -, hread⟩ := hss.single
      cases hread <;> rfl
    exact ⟨[], toks, rfl, hss.single.ne_nil, hf ▸ hss.single.span_eq hord⟩
  | tag => exact ⟨[], toks, rfl, hss.single.ne_nil, hss.single.span_eq hord⟩
  | tagged n span f =>
    cases hss with
    | @cons a b _ _ _ hb =>
      exact ⟨a, b, rfl, hb.single.ne_nil, hb.single.span_eq (pairwise_append.1 hord).2.1⟩

lemma Stands.span_eq (h : Stands source toks f) (hord : Ordered toks) : f.span = extent toks := by
  obtain ⟨ss, hss, hmakes⟩ := h
  cases hmakes with
  | simple h => exact h.span_eq hss hord
  | naked => exact hss.single.span_eq hord
  | @decl ss loose n span hfold hargs =>
    cases hss with
    | @cons a rest _ _ ha hrest =>
      have hmark : span = extent a := ha.span_eq (pairwise_append.1 hord).1
      have hlaid := hrest.comp hargs
      rcases eq_nil_or_concat' (loose.map (·.1)) with hnil | ⟨init, last, hlast⟩
      · rw [hnil] at hlaid ⊢
        cases hlaid
        simpa [Form.span] using hmark
      · rw [hlast] at hlaid ⊢
        obtain ⟨b, c, rfl, -, hc⟩ := hlaid.split
        obtain ⟨xs, hxs, hsimple⟩ := hc.single
        obtain ⟨c, d, rfl, hne, hspan⟩ :=
          hsimple.exists_lastSpan hxs ((pairwise_append.1 (pairwise_append.1 hord).2.1).2.1)
        rw [← append_assoc b] at hord ⊢
        rw [hord.extent_append ha.ne_nil hne, ← hspan, ← hmark]
        simp [Form.span]

/-! ## The text under a span -/

def Sibling.shift (k : Nat) : Sibling → Sibling := map (Span.shift k) (Form.shift k)

/-- What is read of the trees in the source is read, so many bytes before, of the others in its
part. -/
def Echoes (source w : List Char) (k : Nat) (us ts : List TokenTree) : Prop :=
  ∀ ss, readSiblings source us = .ok ss → ∃ ss', readSiblings w ts = .ok ss' ∧
    ss = ss'.map (Sibling.shift k)

variable {k : Nat} {us : List TokenTree} {t u : TokenTree} {span : Span}

lemma Echoes.cons (h : Echoes source w k us ts)
    (hu : ∀ s, ReadsAs source u s → ∃ s', ReadsAs w t s' ∧ s = s'.shift k) :
    Echoes source w k (u :: us) (t :: ts) := by
  intro ss hss
  obtain ⟨s, rest, hs, hrest, rfl⟩ := readSiblings_cons_eq_ok.1 hss
  obtain ⟨s', hs', rfl⟩ := hu s (readSibling_eq_ok.1 hs)
  obtain ⟨rest', hrest', rfl⟩ := h rest hrest
  exact ⟨s' :: rest', readSiblings_cons_eq_ok.2 ⟨s', rest', readSibling_eq_ok.2 hs', hrest', rfl⟩,
    rfl⟩

end Form

end Resolvent
