import Resolvent.TokenTree
import Mathlib.Data.List.Basic

/-!
# What nesting makes of tokens

Every token has its place in what is read: as a leaf, as a bracket of a group, or as a bracket that
is reported.
-/

namespace Resolvent

open List

def Span.none : Span := ⟨0, 0⟩

def Token.isBracket : Token → Bool
  | opening _ | closing _ => true
  | _ => false

namespace TokenTree

/-- The trees are the tokens nested, and the span of a group goes from its opening to its closing
bracket. -/
inductive Nests : List (Token × Span) → List TokenTree → Prop
  | nil : Nests [] []
  | leaf {t toks ts} (span : Span) (ht : t.isBracket = false)
      (h : Nests toks ts) : Nests ((t, span) :: toks) (leaf t span :: ts)
  | group {inner us toks ts} (b : Bracket) (s₁ s₂ : Span) (hin : Nests inner us)
      (h : Nests toks ts) : Nests ((.opening b, s₁) :: (inner ++ (.closing b, s₂) :: toks))
      (group b us (s₁.merge s₂) :: ts)

/-- Every bracket is closed by a bracket of its kind, and what is between the two is balanced too.
-/
inductive Balanced : List Token → Prop
  | nil : Balanced []
  | plain {t toks} (ht : t.isBracket = false) (h : Balanced toks) : Balanced (t :: toks)
  | group {inner toks} (b : Bracket) (hin : Balanced inner) (h : Balanced toks) :
      Balanced (.opening b :: (inner ++ .closing b :: toks))

/-- What becomes of the tokens: the trees, and the brackets that are reported. A bracket that is
never closed takes what follows it inside with it; a closing bracket that fits nothing is left out.
-/
inductive Accounts : List (Token × Span) → List TokenTree → List NestingError → Prop
  | nil : Accounts [] [] []
  | leaf {t toks ts es} (span : Span) (ht : t.isBracket = false) (h : Accounts toks ts es) :
      Accounts ((t, span) :: toks) (leaf t span :: ts) es
  | group {inner us es toks ts es'} (b : Bracket) (s₁ s₂ : Span) (hin : Accounts inner us es)
      (h : Accounts toks ts es') :
      Accounts ((.opening b, s₁) :: (inner ++ (.closing b, s₂) :: toks))
      (group b us (s₁.merge s₂) :: ts) (es ++ es')
  | unclosed {inner us es toks ts es'} (b : Bracket) (span : Span) (hin : Accounts inner us es)
      (h : Accounts toks ts es') :
      Accounts ((.opening b, span) :: (inner ++ toks)) ts (es ++ .unclosed b span :: es')
  | unexpected {toks ts es} (b : Bracket) (span : Span) (h : Accounts toks ts es) :
      Accounts ((.closing b, span) :: toks) ts (.unexpectedClosing span :: es)

variable {ts us vs : List TokenTree} {t u : TokenTree} {toks : List (Token × Span)}

mutual

def tokens : TokenTree → List Token
  | leaf t _ => [t]
  | group b children _ => .opening b :: (tokensAll children ++ [.closing b])

def tokensAll : List TokenTree → List Token
  | [] => []
  | t :: ts => t.tokens ++ tokensAll ts

end

mutual

/-- The tree without its spans. -/
def bare : TokenTree → TokenTree
  | leaf t _ => leaf t .none
  | group b children _ => group b (bareAll children) .none

def bareAll : List TokenTree → List TokenTree
  | [] => []
  | t :: ts => t.bare :: bareAll ts

end

mutual

def Leaves (p : Token → Span → Prop) : TokenTree → Prop
  | leaf t span => p t span
  | group _ children _ => LeavesAll p children

def LeavesAll (p : Token → Span → Prop) : List TokenTree → Prop
  | [] => True
  | t :: ts => t.Leaves p ∧ LeavesAll p ts

end

lemma leavesAll_iff {p : Token → Span → Prop} : LeavesAll p ts ↔ ∀ t ∈ ts, t.Leaves p := by
  induction ts with
  | nil => simp [LeavesAll]
  | cons t ts ih => simp [LeavesAll, ih]

mutual

lemma Leaves.mono {p q : Token → Span → Prop} (hpq : ∀ t span, p t span → q t span) :
    ∀ {t : TokenTree}, t.Leaves p → t.Leaves q
  | leaf t span, h => hpq t span h
  | group _ _ _, h => LeavesAll.mono hpq h

lemma LeavesAll.mono {p q : Token → Span → Prop} (hpq : ∀ t span, p t span → q t span) :
    ∀ {ts : List TokenTree}, LeavesAll p ts → LeavesAll q ts
  | [], _ => trivial
  | _ :: _, h => ⟨h.1.mono hpq, LeavesAll.mono hpq h.2⟩

end

@[simp] lemma tokensAll_append (ts us : List TokenTree) :
    tokensAll (ts ++ us) = tokensAll ts ++ tokensAll us := by
  induction ts with
  | nil => rfl
  | cons t ts ih => rw [cons_append, tokensAll, ih, tokensAll, append_assoc]

@[simp] lemma bareAll_append (ts us : List TokenTree) :
    bareAll (ts ++ us) = bareAll ts ++ bareAll us := by
  induction ts with
  | nil => rfl
  | cons t ts ih => rw [cons_append, bareAll, ih, bareAll, cons_append]

lemma bare_eq_leaf {u : Token} {s : Span} (h : t.bare = leaf u s) : ∃ span, t = leaf u span := by
  cases t with
  | group => simp [bare] at h
  | leaf u' span =>
    obtain ⟨rfl, -⟩ : u' = u ∧ Span.none = s := by simpa [bare] using h
    exact ⟨span, rfl⟩

lemma bare_eq_group {b : Bracket} {s : Span} (h : t.bare = group b us s) :
    ∃ children span, t = group b children span ∧ bareAll children = us := by
  cases t with
  | leaf => simp [bare] at h
  | group b' children span =>
    obtain ⟨rfl, hchildren, -⟩ : b' = b ∧ bareAll children = us ∧ Span.none = s := by
      simpa [bare] using h
    exact ⟨children, span, rfl, hchildren⟩

lemma bareAll_eq_nil (h : bareAll ts = []) : ts = [] := by
  cases ts with
  | nil => rfl
  | cons t ts => simp [bareAll] at h

lemma bareAll_eq_cons (h : bareAll ts = u :: us) : ∃ t rest, ts = t :: rest ∧ t.bare = u ∧
    bareAll rest = us := by
  cases ts with
  | nil => simp [bareAll] at h
  | cons t ts =>
    obtain ⟨ht, hts⟩ : t.bare = u ∧ bareAll ts = us := by simpa [bareAll] using h
    exact ⟨t, ts, rfl, ht, hts⟩

lemma bareAll_eq_append (h : bareAll ts = us ++ vs) :
    ∃ first last, ts = first ++ last ∧ bareAll first = us ∧ bareAll last = vs := by
  induction us generalizing ts with
  | nil => exact ⟨[], ts, rfl, rfl, h⟩
  | cons u us ih =>
    obtain ⟨t, rest, rfl, ht, hrest⟩ := bareAll_eq_cons h
    obtain ⟨first, last, rfl, hfirst, hlast⟩ := ih hrest
    exact ⟨t :: first, last, rfl, by rw [bareAll, ht, hfirst], hlast⟩

namespace Reading

variable {r : Reading}

@[simp] lemma push_spoiled (r : Reading) (t : TokenTree) : (r.push t).spoiled = r.spoiled := by
  unfold push
  split <;> rfl

lemma foldl_push_open (r : Reading) (g : OpenGroup) (gs : List OpenGroup) (ts : List TokenTree) :
    ts.foldl push { r with stack := g :: gs } =
      { r with stack := { g with children := ts.reverse ++ g.children } :: gs } := by
  induction ts generalizing g with
  | nil => rfl
  | cons t ts ih =>
    exact (ih { g with children := t :: g.children }).trans (by simp)

lemma foldl_push_top {r : Reading} (h : r.stack = []) (ts : List TokenTree) :
    ts.foldl push r = { r with trees := ts.reverse ++ r.trees } := by
  induction ts generalizing r with
  | nil => rfl
  | cons t ts ih =>
    have hpush : r.push t = { r with trees := t :: r.trees } := by simp [push, h]
    rw [foldl_cons, ih (by rw [hpush]; exact h), hpush]
    simp

lemma settle_of_not_spoiled (h : r.spoiled = false) (t : Token) : r.settle t = r := by
  simp [settle, h]

lemma step_leaf (h : r.spoiled = false) {t : Token} (ht : t.isBracket = false) (span : Span) :
    r.step (t, span) = r.push (.leaf t span) := by
  cases t with
  | opening | closing => simp [Token.isBracket] at ht
  | _ => simp only [step, settle_of_not_spoiled h]

lemma step_opening (h : r.spoiled = false) (b : Bracket) (span : Span) :
    r.step (.opening b, span) = { r with stack := ⟨b, span, []⟩ :: r.stack } := by
  simp only [step, settle_of_not_spoiled h]

lemma step_closing (h : r.spoiled = false) {g : OpenGroup} {gs : List OpenGroup}
    (hstack : r.stack = g :: gs) (span : Span) : r.step (.closing g.bracket, span) =
      { r with stack := gs }.push (.group g.bracket g.children.reverse (g.span.merge span)) := by
  simp [step, settle_of_not_spoiled h, hstack]

end Reading

open Reading

/-! ## Trees written out -/

lemma Nests.append {toks' : List (Token × Span)} (h : Nests toks ts) (h' : Nests toks' us) :
    Nests (toks ++ toks') (ts ++ us) := by
  induction h with
  | nil => exact h'
  | leaf span ht _ ih => exact .leaf span ht ih
  | group b s₁ s₂ hin _ _ ih => simpa using group b s₁ s₂ hin ih

lemma Nests.foldl_step (h : Nests toks ts) {r : Reading} (hr : r.spoiled = false) :
    toks.foldl step r = ts.foldl push r := by
  induction h generalizing r with
  | nil => rfl
  | leaf span ht _ ih => rw [foldl_cons, step_leaf hr ht, ih (by simpa using hr), foldl_cons]
  | @group inner us toks ts b s₁ s₂ _ _ ihin ih =>
    have hopen := ihin (r := { r with stack := ⟨b, s₁, []⟩ :: r.stack }) hr
    have hclose := step_closing (r := { r with stack := ⟨b, s₁, us.reverse ++ []⟩ :: r.stack }) hr
      rfl s₂
    rw [foldl_cons, step_opening hr, foldl_append, hopen, foldl_push_open, foldl_cons, hclose,
      ih (by simpa using hr)]
    simp

lemma Nests.ofTokens_eq (h : Nests toks ts) : ofTokens toks = (ts, []) := by
  rw [ofTokens, h.foldl_step rfl, foldl_push_top rfl]
  simp [finish, unwind]

mutual

lemma exists_nests_tokens : ∀ (t : TokenTree), t.Leaves (fun t _ => t.isBracket = false) →
    ∀ (toks : List (Token × Span)),
    toks.map (·.1) = t.tokens → ∃ t', t'.bare = t.bare ∧ Nests toks [t']
  | .leaf t _, ht, toks, htoks => by
    obtain ⟨⟨t', span⟩, rfl, rfl⟩ : ∃ tok, toks = [tok] ∧ tok.1 = t := by
      simpa [tokens, map_eq_singleton_iff] using htoks
    exact ⟨.leaf t' span, rfl, .leaf span ht .nil⟩
  | .group b children span, ht, toks, htoks => by
    rw [tokens, map_eq_cons_iff] at htoks
    obtain ⟨⟨t₁, s₁⟩, rest, rfl, rfl, hrest⟩ := htoks
    obtain ⟨inner, last, rfl, hinner, hlast⟩ := map_eq_append_iff.1 hrest
    obtain ⟨⟨t₂, s₂⟩, rfl, rfl⟩ : ∃ tok, last = [tok] ∧ tok.1 = .closing b := by
      simpa using hlast
    obtain ⟨us, hus, hnests⟩ := exists_nests_tokensAll children ht inner hinner
    exact ⟨_, by simp [bare, hus], .group b s₁ s₂ hnests .nil⟩

lemma exists_nests_tokensAll :
    ∀ (ts : List TokenTree), LeavesAll (fun t _ => t.isBracket = false) ts →
    ∀ (toks : List (Token × Span)), toks.map (·.1) = tokensAll ts →
    ∃ ts', bareAll ts' = bareAll ts ∧ Nests toks ts'
  | [], _, toks, htoks => by
    obtain rfl := map_eq_nil_iff.1 htoks
    exact ⟨[], rfl, .nil⟩
  | t :: ts, ht, toks, htoks => by
    rw [tokensAll, map_eq_append_iff] at htoks
    obtain ⟨first, rest, rfl, hfirst, hrest⟩ := htoks
    obtain ⟨t', ht', hnests⟩ := exists_nests_tokens t ht.1 first hfirst
    obtain ⟨ts', hts', hnests'⟩ := exists_nests_tokensAll ts ht.2 rest hrest
    exact ⟨t' :: ts', by simp [bareAll, ht', hts'], hnests.append hnests'⟩

end

lemma ofTokens_tokens (ht : LeavesAll (fun t _ => t.isBracket = false) ts)
    (htoks : toks.map (·.1) = tokensAll ts) :
    ∃ ts', bareAll ts' = bareAll ts ∧ ofTokens toks = (ts', []) := by
  obtain ⟨ts', hts', hnests⟩ := exists_nests_tokensAll ts ht toks htoks
  exact ⟨ts', hts', hnests.ofTokens_eq⟩

/-! ## The place of every token -/

variable {toks' inner : List (Token × Span)} {es es' : List NestingError} {gs : List OpenGroup}
  {r : Reading}

namespace Accounts

lemma append (h : Accounts toks ts es) (h' : Accounts toks' us es') :
    Accounts (toks ++ toks') (ts ++ us) (es ++ es') := by
  induction h with
  | nil => exact h'
  | leaf span ht _ ih => exact .leaf span ht ih
  | group b s₁ s₂ hin _ _ ih => simpa using group b s₁ s₂ hin ih
  | unclosed b span hin _ _ ih => simpa using unclosed b span hin ih
  | unexpected b span _ ih => exact .unexpected b span ih

lemma leavesAll (h : Accounts toks ts es) {p : Token → Span → Prop}
    (hp : ∀ tok ∈ toks, p tok.1 tok.2) : LeavesAll p ts := by
  induction h with
  | nil => trivial
  | leaf span _ _ ih => exact ⟨hp _ mem_cons_self, ih fun tok h => hp tok (by simp [h])⟩
  | group _ _ _ _ _ ihin ih =>
    exact ⟨ihin fun tok h => hp tok (by simp [h]), ih fun tok h => hp tok (by simp [h])⟩
  | unclosed _ _ _ _ _ ih => exact ih fun tok h => hp tok (by simp [h])
  | unexpected _ _ _ ih => exact ih fun tok h => hp tok (by simp [h])

lemma nests (h : Accounts toks ts es) (hes : es = []) : Nests toks ts := by
  induction h with
  | nil => exact .nil
  | leaf span ht _ ih => exact .leaf span ht (ih hes)
  | group b s₁ s₂ _ _ ihin ih =>
    obtain ⟨rfl, rfl⟩ := append_eq_nil_iff.1 hes
    exact .group b s₁ s₂ (ihin rfl) (ih rfl)
  | unclosed | unexpected => simp at hes

end Accounts

/-- The tokens read so far, given the open brackets: each one has its own tokens behind it. -/
def Pending (trees : List TokenTree) : List OpenGroup → List NestingError →
    List (Token × Span) → Prop
  | [], es, toks => Accounts toks trees.reverse es.reverse
  | g :: gs, es, toks => ∃ before inner es₀ es₁, toks = before ++ (.opening g.bracket, g.span) ::
      inner ∧ es = es₁ ++ es₀ ∧
      Pending trees gs es₀ before ∧ Accounts inner g.children.reverse es₁.reverse

namespace Reading

/-- The reader has read the tokens. -/
def Follows (r : Reading) (toks : List (Token × Span)) : Prop :=
  Pending r.trees r.stack r.errors toks

namespace Follows

lemma extend (h : r.Follows toks) (hnew : Accounts toks' ts es.reverse) :
    (ts.foldl push { r with errors := es ++ r.errors }).Follows (toks ++ toks') := by
  obtain ⟨stack, spoiled, trees, errors⟩ := r
  cases stack with
  | nil =>
    rw [foldl_push_top rfl]
    simpa [Follows, Pending] using Accounts.append h hnew
  | cons g gs =>
    obtain ⟨before, inner, es₀, es₁, rfl, rfl, hbefore, hin⟩ := h
    have hpush := foldl_push_open ⟨[], spoiled, trees, es ++ (es₁ ++ es₀)⟩ g gs ts
    rw [hpush]
    refine ⟨before, inner ++ toks', es₀, es ++ es₁, by simp, by simp, hbefore, ?_⟩
    simpa using hin.append hnew

lemma unwind (h : r.Follows toks) (stays : Bracket → Bool) :
    let left := Reading.unwind stays r.errors r.stack
    Follows { r with stack := left.1, errors := left.2 } toks := by
  obtain ⟨stack, spoiled, trees, errors⟩ := r
  induction stack generalizing errors toks with
  | nil => exact h
  | cons g gs ih =>
    rw [Reading.unwind]
    split
    · exact h
    · obtain ⟨before, inner, es₀, es₁, rfl, rfl, hbefore, hin⟩ := h
      have hdropped : Accounts ((.opening g.bracket, g.span) :: (inner ++ [])) []
        (.unclosed g.bracket g.span :: es₁).reverse := by
        simpa using Accounts.unclosed g.bracket g.span hin .nil
      refine ih (.unclosed g.bracket g.span :: (es₁ ++ es₀)) ?_
      simpa using extend (r := ⟨gs, spoiled, trees, es₀⟩) hbefore hdropped

lemma settle (h : r.Follows toks) (t : Token) : (r.settle t).Follows toks := by
  unfold Reading.settle
  split
  · exact h.unwind _
  · exact h

lemma step (h : r.Follows toks) (t : Token) (span : Span) :
    (r.step (t, span)).Follows (toks ++ [(t, span)]) := by
  have hsettle := h.settle t
  unfold Reading.step
  dsimp only
  generalize r.settle t = r at hsettle
  split
  · exact ⟨toks, [], r.errors, [], rfl, rfl, hsettle, .nil⟩
  · next b =>
    have hstray : Accounts [(.closing b, span)] [] [.unexpectedClosing span].reverse :=
      .unexpected b span .nil
    split
    · next g gs hstack =>
      split
      · next hb =>
        obtain ⟨stack, spoiled, trees, errors⟩ := r
        obtain rfl : stack = g :: gs := hstack
        obtain ⟨before, inner, es₀, es₁, rfl, rfl, hbefore, hin⟩ := hsettle
        subst hb
        have hgroup := Accounts.group g.bracket g.span span hin .nil
        rw [append_nil] at hgroup
        simpa using extend (r := ⟨gs, spoiled, trees, es₀⟩) hbefore hgroup
      · exact hsettle.extend hstray
    · exact hsettle.extend hstray
  · next hopening hclosing =>
    have hleaf : Accounts [(t, span)] [.leaf t span] [].reverse :=
      .leaf span (by cases t <;> simp_all [Token.isBracket]) .nil
    exact hsettle.extend hleaf

lemma foldl_step (h : r.Follows toks) (toks' : List (Token × Span)) :
    (toks'.foldl Reading.step r).Follows (toks ++ toks') := by
  induction toks' generalizing r toks with
  | nil => simpa using h
  | cons tok toks' ih => simpa using ih (h.step tok.1 tok.2)

end Follows

lemma unwind_all (es : List NestingError) (gs : List OpenGroup) :
    (unwind (fun _ => false) es gs).1 = [] := by
  induction gs generalizing es with
  | nil => rfl
  | cons g gs ih => exact ih _

end Reading

lemma accounts_ofTokens (toks : List (Token × Span)) :
    Accounts toks (ofTokens toks).1 (ofTokens toks).2 := by
  have hstart : Follows {} [] := Accounts.nil
  have hdone := (hstart.foldl_step toks).unwind fun _ => false
  rwa [Follows, unwind_all] at hdone

lemma leaves_ofTokens (toks : List (Token × Span)) :
    LeavesAll (fun t span => (t, span) ∈ toks) (ofTokens toks).1 :=
  (accounts_ofTokens toks).leavesAll fun _ h => h

/-! ## Balanced brackets -/

lemma Nests.balanced (h : Nests toks ts) : Balanced (toks.map (·.1)) := by
  induction h with
  | nil => exact .nil
  | leaf _ ht _ ih => exact .plain ht ih
  | group b _ _ _ _ ihin ih => simpa using Balanced.group b ihin ih

lemma Balanced.exists_nests {kinds : List Token} (h : Balanced kinds)
    (htoks : toks.map (·.1) = kinds) : ∃ ts, Nests toks ts := by
  induction h generalizing toks with
  | nil =>
    obtain rfl := map_eq_nil_iff.1 htoks
    exact ⟨[], .nil⟩
  | plain ht _ ih =>
    obtain ⟨⟨t, span⟩, rest, rfl, rfl, hrest⟩ := map_eq_cons_iff.1 htoks
    obtain ⟨ts, hts⟩ := ih hrest
    exact ⟨_, .leaf span ht hts⟩
  | group b _ _ ihin ih =>
    obtain ⟨⟨t₁, s₁⟩, rest, rfl, rfl, hrest⟩ := map_eq_cons_iff.1 htoks
    obtain ⟨inner, last, rfl, hinner, hlast⟩ := map_eq_append_iff.1 hrest
    obtain ⟨⟨t₂, s₂⟩, after, rfl, rfl, hafter⟩ := map_eq_cons_iff.1 hlast
    obtain ⟨us, hus⟩ := ihin hinner
    obtain ⟨ts, hts⟩ := ih hafter
    exact ⟨_, .group b s₁ s₂ hus hts⟩

/-- Every token has its place among the trees and the errors. There is no error exactly if the
brackets are balanced, and the trees without an error are those that the tokens nest to. -/
theorem ofTokens_exact (toks : List (Token × Span)) :
    Accounts toks (ofTokens toks).1 (ofTokens toks).2 ∧
    ((ofTokens toks).2 = [] ↔ Balanced (toks.map (·.1))) ∧ ∀ ts, ofTokens toks = (ts, []) ↔
    Nests toks ts := by
  have haccounts := accounts_ofTokens toks
  refine ⟨haccounts, ⟨fun h => (haccounts.nests h).balanced, fun h => ?_⟩,
    fun ts => ⟨fun h => ?_, Nests.ofTokens_eq⟩⟩
  · obtain ⟨ts, hts⟩ := h.exists_nests rfl
    rw [hts.ofTokens_eq]
  · rw [h] at haccounts
    exact haccounts.nests rfl

end TokenTree

end Resolvent
