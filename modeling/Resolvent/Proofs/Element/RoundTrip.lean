import Resolvent.Proofs.Element.Literal
import Resolvent.Proofs.Element.Reader

/-!
# Forms read back

Printing forms leaves out which siblings a tag or a declaration has taken, and the reader finds that
out again from the order of the siblings alone: taking the siblings of a source apart again gives
what was grouped.
-/

namespace Resolvent

open LexClass Token
open List hiding lex

namespace Form

variable {s s' : Sibling} {n : String} {forms fs : List Form} {g : Grouping} {span : Span}

mutual

/-- The form without its spans. -/
def bare : Form → Form
  | literal v _ => literal v .none
  | name n d _ => name n d .none
  | tag n none _ => tag n none .none
  | tag n (some f) _ => tag n (some f.bare) .none
  | decl n args _ => decl n (bareAll args) .none
  | expr items _ => expr (bareAll items) .none
  | call c groups sig _ => call c (bareGroups groups) sig .none

def bareAll : List Form → List Form
  | [] => []
  | f :: fs => f.bare :: bareAll fs

def bareGroups : List (List Form) → List (List Form)
  | [] => []
  | fs :: gs => bareAll fs :: bareGroups gs

end

def nameToken (n : String) : Token := if n.toList.head? = some '.' then .path n else .symbol n

mutual

/-- The token trees of a form as it is printed. -/
def trees : Form → List TokenTree
  | literal v _ => [v.tree]
  | name n _ _ => [.leaf (nameToken n) .none]
  | tag n none _ => [.leaf (.tag n) .none]
  | tag n (some f) _ => .leaf (.tag n) .none :: f.trees
  | decl n args _ => .leaf (if n = "" then .plus else .decl n) .none :: treesAll args
  | expr items _ => [.group .round (treesAll items) .none]
  | call _ _ _ _ => []

def treesAll : List Form → List TokenTree
  | [] => []
  | f :: fs => f.trees ++ treesAll fs

end

def Sibling.bare : Sibling → Sibling
  | tag n _ => tag n .none
  | decl n _ => decl n .none
  | naked _ => naked .none
  | ordinary f => ordinary f.bare

mutual

/-- The siblings that have been taken together as a form. -/
def siblings : Form → List Sibling
  | tag n none span => [.tag n span]
  | tag n (some f) span => [.tag n span, .ordinary f]
  | decl n args span => (if n = "" then .naked span else .decl n span) :: siblingsAll args
  | f => [.ordinary f]

def siblingsAll : List Form → List Sibling
  | [] => []
  | f :: fs => f.siblings ++ siblingsAll fs

end

def isOrdinary : Form → Bool
  | literal _ _ | name _ _ _ | expr _ _ => true
  | _ => false

/-- The forms are grouped as the reader groups their siblings. -/
def Grouped (fs : List Form) : Prop := group ((siblingsAll fs).map Sibling.bare) = bareAll fs

mutual

/-- The text of the form is read as the form. -/
def Legible : Form → Prop
  | literal v _ => v.Legible
  | name n d _ => (nameToken n).Legible ∧ (n.toList.head? ≠ some '.' → isTypeWord n = false) ∧
      d = none
  | tag n none _ => (Token.tag n).Legible
  | tag n (some f) _ => (Token.tag n).Legible ∧ f.Legible ∧ f.isOrdinary
  | decl n args _ => (n ≠ "" → (Token.decl n).Legible) ∧ AllLegible args
  | expr items _ =>
    AllLegible items ∧ Grouped items ∧
    ((treesAll items).head?.bind TokenTree.symbol?).any isTypeHead = false
  | call _ _ _ _ => False

def AllLegible : List Form → Prop
  | [] => True
  | f :: fs => f.Legible ∧ AllLegible fs

end

/-! ## Lexing -/

@[simp] lemma text_nameToken (n : String) : (nameToken n).text = n.toList := by
  unfold nameToken
  split <;> rfl

lemma nameToken_ne_colon (n : String) : nameToken n ≠ .colon := by
  unfold nameToken
  split <;> simp

lemma isBracket_nameToken (n : String) : (nameToken n).isBracket = false := by
  unfold nameToken
  split <;> rfl

mutual

lemma writes_text : ∀ f : Form, f.Legible → Writes f.text.toList (TokenTree.tokensAll f.trees)
  | literal v _, h => by simpa [trees, TokenTree.tokensAll, text] using v.writes_text h
  | name n _ _, h => by
    have hname := Writes.token h.1 (nameToken_ne_colon n)
    simpa [trees, TokenTree.tokensAll, TokenTree.tokens, text] using hname
  | tag n none _, h => by
    have htag := Writes.token h nofun
    simpa [trees, TokenTree.tokensAll, TokenTree.tokens, text] using htag
  | tag n (some f) _, h => by
    have htag := Writes.token h.1 nofun
    have hf := htag.blank (writes_text f h.2.1)
    simpa [trees, TokenTree.tokensAll, TokenTree.tokens, text] using hf
  | decl n args _, h => by
    have hmark : Writes ("+" ++ n).toList [if n = "" then .plus else .decl n] := by
      split
      · next hn => simpa [hn] using Writes.token legible_plus nofun
      · next hn => simpa using Writes.token (h.1 hn) nofun
    simpa [trees, TokenTree.tokensAll, TokenTree.tokens, text]
      using writes_afterBlanks args h.2 hmark
  | expr items _, h => by
    have hitems := (writes_betweenBlanks items h.1).brackets .round
    simpa [trees, TokenTree.tokensAll, TokenTree.tokens, text, Bracket.openChar, Bracket.closeChar]
      using hitems

lemma writes_afterBlanks : ∀ fs : List Form, AllLegible fs → ∀ {w : List Char} {ts : List Token},
    Writes w ts → Writes (w ++ (afterBlanks fs).toList) (ts ++ TokenTree.tokensAll (treesAll fs))
  | [], _, w, ts, hw => by simpa [afterBlanks, treesAll, TokenTree.tokensAll] using hw
  | f :: fs, h, w, ts, hw => by
    have hrest := writes_afterBlanks fs h.2 (hw.blank (writes_text f h.1))
    simpa [afterBlanks, treesAll] using hrest

lemma writes_betweenBlanks : ∀ fs : List Form, AllLegible fs →
    Writes (betweenBlanks fs).toList (TokenTree.tokensAll (treesAll fs))
  | [], _ => .nil
  | f :: fs, h => by
    have hrest := writes_afterBlanks fs h.2 (writes_text f h.1)
    simpa [betweenBlanks, treesAll] using hrest

end

lemma writes_texts : ∀ fs : List Form, AllLegible fs →
    Writes (String.intercalate " " (fs.map text)).toList (TokenTree.tokensAll (treesAll fs))
  | [], _ => .nil
  | f :: fs, h => by
    rw [treesAll, TokenTree.tokensAll_append]
    exact (writes_text f h.1).cons (writes_texts fs h.2)

mutual

lemma leavesAll_trees : ∀ f : Form, TokenTree.LeavesAll (fun t _ => t.isBracket = false) f.trees
  | literal v _ => ⟨v.leaves_tree, trivial⟩
  | name n _ _ => ⟨isBracket_nameToken n, trivial⟩
  | tag n none _ => ⟨rfl, trivial⟩
  | tag n (some f) _ => ⟨rfl, leavesAll_trees f⟩
  | decl n args _ => ⟨by unfold TokenTree.Leaves; split <;> rfl, leavesAll_treesAll args⟩
  | expr items _ => ⟨leavesAll_treesAll items, trivial⟩
  | call _ _ _ _ => trivial

lemma leavesAll_treesAll :
    ∀ fs : List Form, TokenTree.LeavesAll (fun t _ => t.isBracket = false) (treesAll fs)
  | [] => trivial
  | f :: fs => by
    have hf := leavesAll_trees f
    have hfs := leavesAll_treesAll fs
    rw [TokenTree.leavesAll_iff] at hf hfs ⊢
    exact forall_mem_append.2 ⟨hf, hfs⟩

end

/-! ## Grouping -/

@[simp] lemma span_bare (f : Form) : f.bare.span = .none := by
  fun_cases bare f <;> rfl

lemma bareAll_eq_map (fs : List Form) : bareAll fs = fs.map bare := by
  induction fs with
  | nil => rfl
  | cons f fs ih => rw [bareAll, ih, map_cons]

/-- A map of forms that changes nothing but spans, in the same way throughout. -/
structure Respans (φ : Span → Span) (F : Form → Form) : Prop where
  merge (a b : Span) : φ (a.merge b) = (φ a).merge (φ b)
  span (f : Form) : (F f).span = φ f.span
  lastSpan (f : Form) : (F f).lastSpan = φ f.lastSpan
  tag (n : String) (el : Option Form) (s : Span) : F (.tag n el s) = .tag n (el.map F) (φ s)
  decl (n : String) (args : List Form) (s : Span) : F (.decl n args s) = .decl n (args.map F) (φ s)

def Sibling.map (φ : Span → Span) (F : Form → Form) : Sibling → Sibling
  | tag n s => tag n (φ s)
  | decl n s => decl n (φ s)
  | naked s => naked (φ s)
  | ordinary f => ordinary (F f)

def Grouping.map (F : Form → Form) (g : Grouping) : Grouping :=
  ⟨g.loose.map fun f => (F f.1, f.2), g.settled.map F⟩

namespace Respans

variable {φ : Span → Span} {F : Form → Form} (h : Respans φ F)
include h

lemma map_add (s : Sibling) (g : Grouping) : (g.add s).map F = (g.map F).add (s.map φ F) := by
  obtain ⟨loose, settled⟩ := g
  cases s with
  | ordinary f => rfl
  | tag n span =>
    -- Whether the tag takes the next sibling is up to a flag that spans leave alone.
    rcases loose with _ | ⟨⟨f, _ | _⟩, rest⟩ <;> simp [Grouping.add, Grouping.map, Sibling.map,
      h.tag, h.merge, h.span]
  | decl n span =>
    cases hlast : loose.getLast? <;>
      simp [Grouping.add, Grouping.map, Sibling.map, h.decl, h.merge, h.lastSpan, hlast]
  | naked span => simp [Grouping.add, Grouping.map, Sibling.map, h.decl]

lemma map_group (ss : List Sibling) : (group ss).map F = group (ss.map (Sibling.map φ F)) := by
  have hfold : (ss.foldr Grouping.add {}).map F =
    (ss.map (Sibling.map φ F)).foldr Grouping.add {} := by
    induction ss with
    | nil => rfl
    | cons s ss ih => rw [foldr_cons, h.map_add, ih, map_cons, foldr_cons]
  rw [group, group, ← hfold]
  simp [Grouping.finish, Grouping.map]

end Respans

lemma respans_bare : Respans (fun _ => .none) bare where
  merge _ _ := rfl
  span := span_bare
  lastSpan f := by
    fun_cases bare f with
    | case4 _ f _ => exact span_bare f
    | _ => rfl
  tag _ el _ := by cases el <;> rfl
  decl _ args _ := by rw [bare, bareAll_eq_map]

lemma bareAll_group (ss : List Sibling) : bareAll (group ss) = group (ss.map Sibling.bare) := by
  have hbare : Sibling.bare = Sibling.map (fun _ => .none) bare := by
    funext s
    cases s <;> rfl
  rw [bareAll_eq_map, respans_bare.map_group, hbare]

def Sibling.trees : Sibling → List TokenTree
  | tag n _ => [.leaf (.tag n) .none]
  | decl n _ => [.leaf (.decl n) .none]
  | naked _ => [.leaf .plus .none]
  | ordinary f => f.trees

def Sibling.Legible : Sibling → Prop
  | tag n _ => (Token.tag n).Legible
  | decl n _ => (Token.decl n).Legible
  | naked _ => True
  | ordinary f => f.Legible ∧ f.isOrdinary

@[simp] lemma siblingsAll_append (fs gs : List Form) :
    siblingsAll (fs ++ gs) = siblingsAll fs ++ siblingsAll gs := by
  induction fs with
  | nil => rfl
  | cons f fs ih => rw [cons_append, siblingsAll, ih, siblingsAll, append_assoc]

@[simp] lemma treesAll_append (fs gs : List Form) :
    treesAll (fs ++ gs) = treesAll fs ++ treesAll gs := by
  induction fs with
  | nil => rfl
  | cons f fs ih => rw [cons_append, treesAll, ih, treesAll, append_assoc]

lemma allLegible_iff : AllLegible fs ↔ ∀ f ∈ fs, f.Legible := by
  induction fs with
  | nil => simp [AllLegible]
  | cons f fs ih => simp [AllLegible, ih]

lemma siblings_of_isOrdinary {f : Form} (hf : f.isOrdinary) : f.siblings = [.ordinary f] := by
  cases f <;> simp_all [isOrdinary, siblings]

lemma ne_empty_of_legible (h : (Token.decl n).Legible) : n ≠ "" := by
  rintro rfl
  exact absurd (h.symm.trans legible_plus) nofun

namespace Grouping

/-- A grouping of legible siblings: those that a tag may take are ordinary. -/
structure Sound (g : Grouping) : Prop where
  loose : ∀ f ∈ g.loose, f.1.Legible ∧ (f.2 → f.1.isOrdinary)
  settled : AllLegible g.settled

lemma Sound.add (hg : g.Sound) (hs : s.Legible) : (g.add s).Sound := by
  obtain ⟨loose, settled⟩ := g
  obtain ⟨hloose, hsettled⟩ := hg
  have hargs : AllLegible (loose.map (·.1)) := by
    rw [allLegible_iff, List.forall_mem_map]
    exact fun f hf => (hloose f hf).1
  cases s with
  | ordinary f => exact ⟨forall_mem_cons.2 ⟨⟨hs.1, fun _ => hs.2⟩, hloose⟩, hsettled⟩
  | tag n span =>
    rcases loose with _ | ⟨⟨f, _ | _⟩, rest⟩
    · exact ⟨forall_mem_cons.2 ⟨⟨hs, nofun⟩, hloose⟩, hsettled⟩
    · exact ⟨forall_mem_cons.2 ⟨⟨hs, nofun⟩, hloose⟩, hsettled⟩
    · rw [forall_mem_cons] at hloose
      exact ⟨forall_mem_cons.2 ⟨⟨⟨hs, hloose.1.1, hloose.1.2 rfl⟩, nofun⟩, hloose.2⟩, hsettled⟩
  | decl n span => exact ⟨nofun, ⟨fun _ => hs, hargs⟩, hsettled⟩
  | naked span =>
    refine ⟨nofun, ⟨⟨fun h => absurd rfl h, trivial⟩, ?_⟩⟩
    rw [allLegible_iff, forall_mem_append]
    exact ⟨allLegible_iff.1 hargs, allLegible_iff.1 hsettled⟩

lemma siblingsAll_finish_add (hg : g.Sound) (hs : s.Legible) :
    (siblingsAll (g.add s).finish).map Sibling.bare =
    s.bare :: (siblingsAll g.finish).map Sibling.bare := by
  obtain ⟨loose, settled⟩ := g
  cases s with
  | ordinary f => simp [add, finish, siblingsAll, siblings_of_isOrdinary hs.2]
  | tag n span =>
    rcases loose with _ | ⟨⟨f, _ | _⟩, rest⟩
    · simp [add, finish, siblingsAll, siblings]
    · simp [add, finish, siblingsAll, siblings]
    · have hf := (hg.loose (f, true) (by simp)).2 rfl
      simp [add, finish, siblingsAll, siblings, Sibling.bare, siblings_of_isOrdinary hf]
  | decl n span => simp [add, finish, siblingsAll, siblings, Sibling.bare, ne_empty_of_legible hs]
  | naked span => simp [add, finish, siblingsAll, siblings]

lemma treesAll_finish_add (g : Grouping) (hs : s.Legible) :
    treesAll (g.add s).finish = s.trees ++ treesAll g.finish := by
  obtain ⟨loose, settled⟩ := g
  cases s with
  | ordinary f => simp [add, finish, treesAll, Sibling.trees]
  | tag n span =>
    rcases loose with _ | ⟨⟨f, _ | _⟩, rest⟩
    · simp [add, finish, treesAll, trees, Sibling.trees]
    · simp [add, finish, treesAll, trees, Sibling.trees]
    · simp [add, finish, treesAll, trees, Sibling.trees]
  | decl n span => simp [add, finish, treesAll, trees, Sibling.trees, ne_empty_of_legible hs]
  | naked span => simp [add, finish, treesAll, trees, Sibling.trees]

lemma Sound.foldr {ss : List Sibling} (h : ∀ s ∈ ss, s.Legible) :
    (ss.foldr Grouping.add {}).Sound := by
  induction ss with
  | nil => exact ⟨nofun, trivial⟩
  | cons s ss ih =>
    rw [forall_mem_cons] at h
    exact (ih h.2).add h.1

end Grouping

variable {ss ss' : List Sibling} {ts us : List TokenTree} {t : TokenTree}

lemma allLegible_group (h : ∀ s ∈ ss, s.Legible) : AllLegible (group ss) := by
  obtain ⟨hloose, hsettled⟩ := Grouping.Sound.foldr h
  rw [group, Grouping.finish, allLegible_iff, forall_mem_append, List.forall_mem_map]
  exact ⟨fun f hf => (hloose f hf).1, allLegible_iff.1 hsettled⟩

lemma siblingsAll_group (h : ∀ s ∈ ss, s.Legible) :
    (siblingsAll (group ss)).map Sibling.bare = ss.map Sibling.bare := by
  induction ss with
  | nil => rfl
  | cons s ss ih =>
    rw [forall_mem_cons] at h
    rw [group, foldr_cons, Grouping.siblingsAll_finish_add (Grouping.Sound.foldr h.2) h.1]
    exact congrArg _ (ih h.2)

lemma treesAll_group (h : ∀ s ∈ ss, s.Legible) :
    treesAll (group ss) = ss.flatMap Sibling.trees := by
  induction ss with
  | nil => rfl
  | cons s ss ih =>
    rw [forall_mem_cons] at h
    rw [group, foldr_cons, Grouping.treesAll_finish_add _ h.1]
    exact congrArg _ (ih h.2)

lemma grouped_group (h : ∀ s ∈ ss, s.Legible) : Grouped (group ss) := by
  rw [Grouped, siblingsAll_group h, bareAll_group]

/-! ## Reading -/

variable {source : List Char}

/-- How a tree is read on its own. -/
inductive ReadsAs (source : List Char) : TokenTree → Sibling → Prop
  | tag (n : String) (span : Span) : ReadsAs source (.leaf (.tag n) span) (.tag n span)
  | decl (n : String) (span : Span) : ReadsAs source (.leaf (.decl n) span) (.decl n span)
  | naked (span : Span) : ReadsAs source (.leaf .plus span) (.naked span)
  | symbol {n : String} (span : Span) (hn : isTypeWord n = false) :
      ReadsAs source (.leaf (.symbol n) span) (.ordinary (.name n none span))
  | path (n : String)
      (span : Span) : ReadsAs source (.leaf (.path n) span) (.ordinary (.name n none span))
  | literal {t : TokenTree} {v : Val}
      (hv : readLiteral t = .ok v) : ReadsAs source t (.ordinary (.literal v t.span))
  | typ {children : List TokenTree} {span : Span} {r : Ty}
      (hhead : (children.head?.bind TokenTree.symbol?).any isTypeHead)
      (hr : Ty.parse (String.ofList (span.slice source)) = .ok r) :
      ReadsAs source (.group .round children span) (.ordinary (.literal (.typ r) span))
  | expr {children : List TokenTree} {ss : List Sibling} (span : Span)
      (hhead : (children.head?.bind TokenTree.symbol?).any isTypeHead = false)
      (hss : readSiblings source children = .ok ss) :
      ReadsAs source (.group .round children span) (.ordinary (.expr (group ss) span))

lemma readSibling_eq_ok : readSibling source t = .ok s ↔ ReadsAs source t s := by
  constructor
  · intro h
    unfold readSibling at h
    split at h
    · cases h
      exact .tag _ _
    · cases h
      exact .decl _ _
    · cases h
      exact .naked _
    · split at h
      · next hn =>
        obtain ⟨r, hr, rfl⟩ := of_bind_pure_eq_ok h
        refine .literal ?_
        rw [readLiteral, if_pos hn, hr]
        rfl
      · next hn =>
        cases h
        exact .symbol _ (by simpa using hn)
    · cases h
      exact .path _ _
    · split at h
      · next hhead =>
        obtain ⟨r, hr, rfl⟩ := of_bind_pure_eq_ok h
        exact .typ hhead (readType_eq_ok.1 hr)
      · next hhead =>
        obtain ⟨ss, hss, rfl⟩ := of_bind_pure_eq_ok h
        exact .expr _ (by simpa using hhead) hss
    · obtain ⟨v, hv, rfl⟩ := of_bind_pure_eq_ok h
      exact .literal hv
  · rintro h
    cases h with
    | tag | decl | naked | path => rfl
    | symbol span hn => rw [readSibling, if_neg (by simp [hn])]
    | typ hhead hr =>
      rw [readSibling, if_pos hhead, readType_eq_ok.2 hr]
      rfl
    | expr span hhead hss =>
      rw [readSibling, if_neg (by simp [hhead]), hss]
      rfl
    | @literal t v hv => 
      unfold readSibling
      split
      · cases hv
      · cases hv
      · cases hv
      · rw [readLiteral] at hv
        split at hv
        · next hs =>
          obtain ⟨r, hr, rfl⟩ := of_bind_pure_eq_ok hv
          rw [if_pos hs, hr]
          rfl
        · cases hv
      · cases hv
      · cases hv
      · rw [hv]
        rfl
lemma readSiblings_cons_eq_ok : readSiblings source (t :: ts) = .ok ss ↔
      ∃ s ss', readSibling source t = .ok s ∧ readSiblings source ts = .ok ss' ∧ ss = s :: ss' := by
  rw [readSiblings]
  cases readSibling source t with
  | error e => simp [bind, Except.bind]
  | ok s =>
    cases readSiblings source ts with
    | error e => simp [bind, Except.bind]
    | ok ss' => simp [bind, Except.bind, pure, Except.pure, eq_comm]

lemma readSiblings_append (hts : readSiblings source ts = .ok ss)
    (hus : readSiblings source us = .ok ss') :
    readSiblings source (ts ++ us) = .ok (ss ++ ss') := by
  induction ts generalizing ss with
  | nil =>
    obtain rfl : [] = ss := Except.ok.inj hts
    exact hus
  | cons t ts ih =>
    obtain ⟨s, rest, hs, hrest, rfl⟩ := readSiblings_cons_eq_ok.1 hts
    exact readSiblings_cons_eq_ok.2 ⟨s, rest ++ ss', hs, ih hrest, rfl⟩

def Reads (source : List Char) (ts : List TokenTree) (ss : List Sibling) : Prop :=
  ∃ ss', readSiblings source ts = .ok ss' ∧ ss'.map Sibling.bare = ss.map Sibling.bare

lemma Reads.append {ss : List Sibling} (hts : Reads source ts ss) (hus : Reads source us ss') :
    Reads source (ts ++ us) (ss ++ ss') := by
  obtain ⟨as, has, hbare⟩ := hts
  obtain ⟨bs, hbs, hbare'⟩ := hus
  exact ⟨as ++ bs, readSiblings_append has hbs, by simp [hbare, hbare']⟩

lemma Reads.cons {ss : List Sibling} (ht : readSibling source t = .ok s') (hs : s'.bare = s.bare)
    (hts : Reads source ts ss) : Reads source (t :: ts) (s :: ss) := by
  obtain ⟨as, has, hbare⟩ := hts
  exact ⟨s' :: as, readSiblings_cons_eq_ok.2 ⟨s', as, ht, has, rfl⟩, by simp [hs, hbare]⟩

lemma Reads.single (ht : readSibling source t = .ok s') (hs : s'.bare = s.bare) :
    Reads source [t] [s] :=
  .cons ht hs ⟨[], rfl, rfl⟩

lemma readSibling_tree {v : Val} (hv : v.Legible) (ht : t.bare = v.tree.bare) :
    readSibling source t = .ok (.ordinary (.literal v t.span)) :=
  readSibling_eq_ok.2 (.literal (readLiteral_of_bare v.tree t ht v (v.readLiteral_tree hv)))

lemma readSibling_nameToken (hn : n.toList.head? ≠ some '.' → isTypeWord n = false) (span : Span) :
    readSibling source (.leaf (nameToken n) span) = .ok (.ordinary (.name n none span)) := by
  unfold nameToken
  split
  · rfl
  · next hdot => rw [readSibling, if_neg (by simp [hn hdot])]

lemma head?_bareAll (ts : List TokenTree) :
    (TokenTree.bareAll ts).head?.bind TokenTree.symbol? = ts.head?.bind TokenTree.symbol? := by
  cases ts with
  | nil => rfl
  | cons t ts =>
    cases t with
    | leaf u span => cases u <;> rfl
    | group => rfl

mutual

lemma reads_trees : ∀ f : Form, f.Legible → ∀ ts : List TokenTree,
    TokenTree.bareAll ts = TokenTree.bareAll f.trees → Reads source ts f.siblings
  | literal v _, h, ts, hts => by
    obtain ⟨t, rest, rfl, ht, hrest⟩ := TokenTree.bareAll_eq_cons hts
    obtain rfl := TokenTree.bareAll_eq_nil hrest
    exact .single (readSibling_tree h ht) rfl
  | name n d _, h, ts, hts => by
    obtain ⟨t, rest, rfl, ht, hrest⟩ := TokenTree.bareAll_eq_cons hts
    obtain rfl := TokenTree.bareAll_eq_nil hrest
    obtain ⟨span, rfl⟩ := TokenTree.bare_eq_leaf ht
    obtain ⟨-, hword, rfl⟩ := h
    exact .single (readSibling_nameToken hword span) rfl
  | tag n none _, h, ts, hts => by
    obtain ⟨t, rest, rfl, ht, hrest⟩ := TokenTree.bareAll_eq_cons hts
    obtain rfl := TokenTree.bareAll_eq_nil hrest
    obtain ⟨span, rfl⟩ := TokenTree.bare_eq_leaf ht
    exact .single rfl rfl
  | tag n (some f) _, h, ts, hts => by
    obtain ⟨t, rest, rfl, ht, hrest⟩ := TokenTree.bareAll_eq_cons hts
    obtain ⟨span, rfl⟩ := TokenTree.bare_eq_leaf ht
    have hf := reads_trees f h.2.1 rest hrest
    rw [siblings_of_isOrdinary h.2.2] at hf
    have htag : readSibling source (.leaf (.tag n) span) = .ok (.tag n span) := rfl
    exact .cons htag rfl hf
  | decl n args _, h, ts, hts => by
    obtain ⟨t, rest, rfl, ht, hrest⟩ := TokenTree.bareAll_eq_cons hts
    obtain ⟨span, rfl⟩ := TokenTree.bare_eq_leaf ht
    have hargs := reads_treesAll args h.2 rest hrest
    have hmark : readSibling source (.leaf (if n = "" then .plus else .decl n) span) =
        .ok (if n = "" then .naked span else .decl n span) := by
      split <;> rfl
    exact .cons hmark (by split <;> rfl) hargs
  | expr items _, h, ts, hts => by
    obtain ⟨t, rest, rfl, ht, hrest⟩ := TokenTree.bareAll_eq_cons hts
    obtain rfl := TokenTree.bareAll_eq_nil hrest
    obtain ⟨children, span, rfl, hchildren⟩ := TokenTree.bare_eq_group ht
    obtain ⟨hitems, hgrouped, hhead⟩ := h
    obtain ⟨ss, hss, hbare⟩ := reads_treesAll items hitems children hchildren
    rw [← head?_bareAll, ← hchildren, head?_bareAll] at hhead
    have hread : readSibling source (.group .round children span) =
      .ok (.ordinary (.expr (group ss) span)) := by
      rw [readSibling, if_neg (by simp [hhead]), hss]
      rfl
    refine .single hread ?_
    rw [Sibling.bare, Sibling.bare, bare, bare, bareAll_group, hbare, hgrouped]

lemma reads_treesAll : ∀ fs : List Form, AllLegible fs → ∀ ts : List TokenTree,
    TokenTree.bareAll ts = TokenTree.bareAll (treesAll fs) → Reads source ts (siblingsAll fs)
  | [], _, ts, hts => by
    obtain rfl := TokenTree.bareAll_eq_nil hts
    exact ⟨[], rfl, rfl⟩
  | f :: fs, h, ts, hts => by
    rw [treesAll, TokenTree.bareAll_append] at hts
    obtain ⟨us, vs, rfl, hus, hvs⟩ := TokenTree.bareAll_eq_append hts
    exact (reads_trees f h.1 us hus).append (reads_treesAll fs h.2 vs hvs)

end

lemma read_eq_ok {source : String} : read source = .ok forms ↔ ∃ toks ts ss, lex source.toList =
    (toks, []) ∧ TokenTree.ofTokens toks = (ts, []) ∧ readSiblings source.toList ts = .ok ss ∧
    group ss = forms := by
  constructor
  · intro h
    obtain ⟨ts, hts, h⟩ := of_bind_eq_ok h
    obtain ⟨ss, hss, h⟩ := of_bind_eq_ok h
    unfold readTrees at hts
    rcases hlex : lex source.toList with ⟨toks, _ | ⟨_, _⟩⟩
    · rcases htree : TokenTree.ofTokens toks with ⟨ts, _ | ⟨_, _⟩⟩
      · simp only [hlex, htree] at hts
        cases hts
        exact ⟨toks, ts, ss, rfl, htree, hss, Except.ok.inj h⟩
      · simp only [hlex, htree] at hts
        cases hts
    · simp only [hlex] at hts
      cases hts
  · rintro ⟨toks, ts, ss, hlex, htree, hss, rfl⟩
    have hts : readTrees source.toList = .ok ts := by
      simp only [readTrees, hlex, htree]
      rfl
    rw [read, hts]
    change (readSiblings source.toList ts >>= fun ss => pure (group ss)) = _
    rw [hss]
    rfl

lemma read_of_legible (h : AllLegible fs) (hgrouped : Grouped fs) :
    (read (String.intercalate " " (fs.map text))).map bareAll = .ok (bareAll fs) := by
  obtain ⟨htokens, hbad⟩ := (writes_texts fs h).lexed.lex_eq
  obtain ⟨ts, hts, htrees⟩ := TokenTree.ofTokens_tokens (leavesAll_treesAll fs) htokens
  obtain ⟨ss, hss, hbare⟩ := reads_treesAll fs h ts hts
  have hread : read (String.intercalate " " (fs.map text)) = .ok (group ss) :=
    read_eq_ok.2 ⟨_, ts, ss, Prod.ext rfl hbad, htrees, hss, rfl⟩
  rw [hread, Except.map, bareAll_group, hbare, hgrouped]

/-! ## What has been read -/

mutual

/-- Every literal of the form is a plain value. -/
def isPlain : Form → Bool
  | literal v _ => v.isPlain
  | name _ _ _ | tag _ none _ => true
  | tag _ (some f) _ => f.isPlain
  | decl _ args _ => arePlain args
  | expr items _ => arePlain items
  | call _ groups _ _ => areGroupsPlain groups

def arePlain : List Form → Bool
  | [] => true
  | f :: fs => f.isPlain && arePlain fs

def areGroupsPlain : List (List Form) → Bool
  | [] => true
  | fs :: gs => arePlain fs && areGroupsPlain gs

end

def Sibling.isPlain : Sibling → Bool
  | ordinary f => f.isPlain
  | _ => true

@[simp] lemma arePlain_append (fs gs : List Form) :
    arePlain (fs ++ gs) = (arePlain fs && arePlain gs) := by
  induction fs with
  | nil => simp [arePlain]
  | cons f fs ih => simp [arePlain, ih, Bool.and_assoc]

lemma Grouping.arePlain_finish_add (g : Grouping) (s : Sibling) :
    arePlain (g.add s).finish = (s.isPlain && arePlain g.finish) := by
  obtain ⟨loose, settled⟩ := g
  cases s with
  | ordinary f => simp [add, finish, arePlain, Sibling.isPlain]
  | tag n span =>
    rcases loose with _ | ⟨⟨f, _ | _⟩, rest⟩ <;> simp [add, finish, arePlain, isPlain,
      Sibling.isPlain]
  | decl n span => simp [add, finish, arePlain, isPlain, Sibling.isPlain]
  | naked span => simp [add, finish, arePlain, isPlain, Sibling.isPlain]

lemma arePlain_group (ss : List Sibling) : arePlain (group ss) = ss.all Sibling.isPlain := by
  induction ss with
  | nil => rfl
  | cons s ss ih =>
    rw [group, foldr_cons, Grouping.arePlain_finish_add, all_cons, ← ih]
    rfl

def LegibleNames (t : Token) (_ : Span) : Prop := t.isName → t.Legible

lemma nameToken_of_symbol (h : (Token.symbol n).Legible) : nameToken n = .symbol n :=
  if_neg h.symbol_chars.1

lemma nameToken_of_path (h : (Token.path n).Legible) : nameToken n = .path n := if_pos h.head_path

/-- The sibling is legible and printed as trees that begin with a symbol only if `t` is that symbol.
-/
def Prints (t : TokenTree) (s : Sibling) : Prop :=
  s.Legible ∧ ∃ u us, s.trees = u :: us ∧ u.symbol? = t.symbol?

lemma prints_literal {v : Val} (hv : v.isPlain) (ht : t.symbol? = none) :
    Prints t (.ordinary (.literal v span)) := by
  refine ⟨⟨v.legible_of_isPlain hv, rfl⟩, v.tree, [], rfl, ?_⟩
  cases v <;> simp_all [Val.isPlain, Val.tree, TokenTree.symbol?]

lemma prints_leaf {u : Token} (hu : LegibleNames u span)
    (hs : readSibling source (.leaf u span) = .ok s) (hplain : s.isPlain) :
    Prints (.leaf u span) s := by
  cases readSibling_eq_ok.1 hs with
  | tag | decl => exact ⟨hu rfl, _, [], rfl, rfl⟩
  | naked => exact ⟨trivial, _, [], rfl, rfl⟩
  | symbol span hword =>
    have hname := nameToken_of_symbol (hu rfl)
    refine ⟨⟨⟨by rw [hname]; exact hu rfl, fun _ => hword, rfl⟩, rfl⟩, _, [], rfl, ?_⟩
    rw [hname]
    rfl
  | path n =>
    have hname := nameToken_of_path (hu rfl)
    refine ⟨⟨⟨by rw [hname]; exact hu rfl, fun h => absurd (hu rfl).head_path h, rfl⟩, rfl⟩, _,
      [], rfl, ?_⟩
    rw [hname]
    rfl
  | literal hv =>
    refine prints_literal hplain ?_
    cases u with
    | symbol n =>
      rw [readLiteral] at hv
      split at hv
      · obtain ⟨r, -, rfl⟩ := of_bind_pure_eq_ok hv
        cases hplain
      · cases hv
    | _ => rfl

lemma legible_of_prints (h : Forall₂ Prints ts ss) : ∀ s ∈ ss, s.Legible := by
  induction h with
  | nil => simp
  | cons h _ ih => exact forall_mem_cons.2 ⟨h.1, ih⟩

lemma head?_flatMap_trees (h : Forall₂ Prints ts ss) :
    (ss.flatMap Sibling.trees).head?.bind TokenTree.symbol? = ts.head?.bind TokenTree.symbol? := by
  cases h with
  | nil => rfl
  | cons h _ =>
    obtain ⟨-, u, us, htrees, hu⟩ := h
    simp [htrees, hu]

mutual

lemma prints_readSibling : ∀ (t : TokenTree), t.Leaves LegibleNames → ∀ s : Sibling,
    readSibling source t = .ok s → s.isPlain → Prints t s
  | .leaf u span, ht, s, hs, hplain => prints_leaf ht hs hplain
  | .group .round children span, ht, s, hs, hplain => by
    cases readSibling_eq_ok.1 hs with
    | literal hv => cases hv
    | typ => cases hplain
    | @expr _ ss _ hhead hss =>
      have hprints := prints_readSiblings children ht ss hss
        (by rw [← arePlain_group]; exact hplain)
      have hlegible := legible_of_prints hprints
      refine ⟨⟨⟨allLegible_group hlegible, grouped_group hlegible, ?_⟩, rfl⟩, _, [], rfl, rfl⟩
      rw [treesAll_group hlegible, head?_flatMap_trees hprints, hhead]
  | .group .square items span, ht, s, hs, hplain | .group .curly items span, ht, s, hs, hplain => by
    cases readSibling_eq_ok.1 hs
    exact prints_literal hplain rfl

lemma prints_readSiblings : ∀ (ts : List TokenTree), TokenTree.LeavesAll LegibleNames ts →
    ∀ ss : List Sibling,
    readSiblings source ts = .ok ss → ss.all Sibling.isPlain → Forall₂ Prints ts ss
  | [], _, ss, hss, _ => by
    obtain rfl : [] = ss := Except.ok.inj hss
    exact .nil
  | t :: ts, ht, ss, hss, hplain => by
    obtain ⟨s, rest, hs, hrest, rfl⟩ := readSiblings_cons_eq_ok.1 hss
    rw [all_cons, Bool.and_eq_true] at hplain
    exact .cons (prints_readSibling t ht.1 s hs hplain.1)
      (prints_readSiblings ts ht.2 rest hrest hplain.2)

end

lemma leavesAll_legibleNames (source : List Char) :
    TokenTree.LeavesAll LegibleNames (TokenTree.ofTokens (lex source).1).1 :=
  TokenTree.LeavesAll.mono (fun _ _ h hname => legible_of_mem_lex hname h)
    (TokenTree.leaves_ofTokens _)

lemma group_of_read {source : String} (hread : read source = .ok forms) :
    ∃ ss, readSiblings source.toList (TokenTree.ofTokens (lex source.toList).1).1 = .ok ss ∧
    group ss = forms := by
  obtain ⟨toks, ts, ss, hlex, htrees, hss, hgroup⟩ := read_eq_ok.1 hread
  rw [hlex, htrees]
  exact ⟨ss, hss, hgroup⟩

lemma legible_of_read {source : String} (hread : read source = .ok forms)
    (hplain : arePlain forms) : AllLegible forms ∧ Grouped forms := by
  obtain ⟨ss, hss, rfl⟩ := group_of_read hread
  rw [arePlain_group] at hplain
  have hprints := prints_readSiblings _ (leavesAll_legibleNames source.toList) ss hss hplain
  have hlegible := legible_of_prints hprints
  exact ⟨allLegible_group hlegible, grouped_group hlegible⟩

/-- Printed forms are read back: the texts of all forms of a source, with blanks between them, give
the same forms up to spans if every literal is a plain value. -/
theorem read_texts {source : String} {forms : List Form} (hread : read source = .ok forms)
    (hplain : arePlain forms) :
    (read (String.intercalate " " (forms.map text))).map bareAll = .ok (bareAll forms) := by
  obtain ⟨hlegible, hgrouped⟩ := legible_of_read hread hplain
  exact read_of_legible hlegible hgrouped

/-- Tags without and with a sibling to take, a declaration that takes the rest, naked markers,
signs, paths, and a dict whose keyword is lexed with its colon. -/
theorem read_texts_sample : ∃ forms,
    read "(f :a :b -1 +c [1 \"x\\ty\" null] :d +) - .p.q \x7bk : true \"l\":[\x7b\x7d]\x7d" =
    .ok forms ∧ arePlain forms ∧
    (read (String.intercalate " " (forms.map text))).map bareAll = .ok (bareAll forms) := by
  have hsource : (match read
    "(f :a :b -1 +c [1 \"x\\ty\" null] :d +) - .p.q \x7bk : true \"l\":[\x7b\x7d]\x7d" with
      | .ok forms => arePlain forms
      | .error _ => false) = true := by
    decide +kernel
  split at hsource
  · next forms hread => exact ⟨forms, hread, hsource, read_texts hread hsource⟩
  · exact absurd hsource nofun

end Form

end Resolvent
