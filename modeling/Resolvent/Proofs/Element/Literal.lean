import Resolvent.Element.Reader
import Resolvent.Proofs.Token.Lexing
import Resolvent.Proofs.Token.Nesting

/-!
# Literals read back

A value is legible if its text is read as the value: scalars other than reals, types that are
written as one word, lists, and dicts whose keys are words.
-/

namespace Resolvent

open LexClass Token TokenTree
open List hiding lex

lemma of_bind_eq_ok {α β : Type} {x : Except Failure α} {k : α → Except Failure β} {b : β}
    (h : (x >>= k) = .ok b) : ∃ a, x = .ok a ∧ k a = .ok b := by
  cases x with
  | error e => exact absurd h nofun
  | ok a => exact ⟨a, rfl, h⟩

lemma of_bind_pure_eq_ok {α β : Type} {x : Except Failure α} {k : α → β} {b : β}
    (h : (do return k (← x)) = Except.ok b) : ∃ a, x = .ok a ∧ k a = b := by
  obtain ⟨a, hx, ha⟩ := of_bind_eq_ok h
  exact ⟨a, hx, Except.ok.inj ha⟩

/-- The type is written as one word, which is read as the type. -/
structure Ty.ReadsAsWord (t : Ty) : Prop where
  legible : (Token.symbol t.text).Legible
  isTypeWord : Form.isTypeWord t.text
  parse : parse t.text = .ok t

/-! ## Reading without spans -/

namespace Form

variable {t u : TokenTree} {ts us : List TokenTree} {v : Val} {es : List (String × Val)}
  {span : Span}

def key? : TokenTree → Option String
  | .leaf (.symbol s) _ | .leaf (.str s) _ => some s
  | _ => none

def keyword? : String → Option Val
  | "true" => some (.bool true)
  | "false" => some (.bool false)
  | "null" => some .null
  | _ => none

lemma readType_eq_ok {s : String} {r : Ty} : readType s span = .ok r ↔ Ty.parse s = .ok r := by
  unfold readType
  cases Ty.parse s <;> simp [Except.mapError]

lemma exists_key {α : Type} {key : TokenTree} {K : String → Except Failure α} {r : α}
    (h : (match key with
    | .leaf (.symbol s) _ => pure s >>= K
    | .leaf (.str s) _ => pure s >>= K
    | t => throw (Failure.read .noKey t.span) >>= K) = .ok r) : ∃ k, key? key = some k ∧
        K k = .ok r := by
  split at h
  · exact ⟨_, rfl, h⟩
  · exact ⟨_, rfl, h⟩
  · cases h

lemma readEntries_cons_eq_ok {key : TokenTree} : readEntries (key :: ts) = .ok es ↔ ∃ k v es' rest,
    key? key = some k ∧ es = (k, v) :: es' ∧ readEntries rest = .ok es' ∧
      ((∃ span t, ts = .leaf .colon span :: t :: rest ∧ readLiteral t = .ok v) ∨
        ∃ word span, ts = .leaf (.tag word) span :: rest ∧ keyword? word = some v) := by
  constructor
  · intro h
    unfold readEntries at h
    split at h
    · next t rest =>
      obtain ⟨k, hk, h⟩ := exists_key h
      obtain ⟨v, hv, h⟩ := of_bind_eq_ok h
      obtain ⟨es', hes, h⟩ := of_bind_eq_ok h
      exact ⟨k, v, es', rest, hk, (Except.ok.inj h).symm, hes, .inl ⟨_, t, rfl, hv⟩⟩
    · obtain ⟨k, -, h⟩ := exists_key h
      cases h
    · next word span rest =>
      obtain ⟨k, hk, h⟩ := exists_key h
      obtain ⟨v, hv, h⟩ : ∃ v, keyword? word = some v ∧ (do return (k, v) :: (← readEntries rest)) =
        Except.ok es := by
        split at h
        · exact ⟨_, rfl, h⟩
        · exact ⟨_, rfl, h⟩
        · exact ⟨_, rfl, h⟩
        · cases h
      obtain ⟨es', hes, h⟩ := of_bind_eq_ok h
      exact ⟨k, v, es', rest, hk, (Except.ok.inj h).symm, hes, .inr ⟨word, span, rfl, hv⟩⟩
    · obtain ⟨k, -, h⟩ := exists_key h
      cases h
  · rintro ⟨k, v, es', rest, hk, rfl, hes, ⟨span, t, rfl, ht⟩ | ⟨word, span, rfl, hword⟩⟩
    · have hentry : (do return (k, ← readLiteral t) :: (← readEntries rest)) =
        Except.ok ((k, v) :: es') := by
        rw [ht, hes]
        rfl
      unfold key? at hk
      split at hk <;> cases hk <;> (rw [readEntries]; exact hentry)
    · have hentry : (do return (k, v) :: (← readEntries rest)) = Except.ok ((k, v) :: es') := by
        rw [hes]
        rfl
      unfold keyword? at hword
      unfold key? at hk
      split at hk <;> cases hk <;> split at hword <;> cases hword <;>
        (rw [readEntries]; exact hentry)

lemma key?_bare (t : TokenTree) : key? t.bare = key? t := by
  cases t with
  | leaf u span => cases u <;> rfl
  | group => rfl

mutual

lemma readLiteral_of_bare : ∀ (t u : TokenTree), u.bare = t.bare → ∀ v, readLiteral t = .ok v →
    readLiteral u = .ok v
  | .leaf tok _, u, h, v, hv => by
    obtain ⟨span, rfl⟩ := bare_eq_leaf h
    cases tok with
    | symbol s =>
      rw [readLiteral] at hv ⊢
      split at hv
      · next hs =>
        obtain ⟨r, hr, hv⟩ := of_bind_eq_ok hv
        rw [if_pos hs, readType_eq_ok.2 (readType_eq_ok.1 hr)]
        exact hv
      · cases hv
    | int | real | str | bool | null => exact hv
    | _ => cases hv
  | .group .round _ _, u, _, v, hv => by cases hv
  | .group .square items _, u, h, v, hv => by
    obtain ⟨items', span, rfl, hitems⟩ := bare_eq_group h
    obtain ⟨vs, hvs, hv⟩ := of_bind_eq_ok hv
    rw [readLiteral, readLiterals_of_bare items items' hitems vs hvs]
    exact hv
  | .group .curly items _, u, h, v, hv => by
    obtain ⟨items', span, rfl, hitems⟩ := bare_eq_group h
    obtain ⟨es, hes, hv⟩ := of_bind_eq_ok hv
    rw [readLiteral, readEntries_of_bare items items' hitems es hes]
    exact hv

lemma readLiterals_of_bare : ∀ (ts us : List TokenTree), bareAll us = bareAll ts → ∀ vs,
    readLiterals ts = .ok vs → readLiterals us = .ok vs
  | [], us, h, vs, hvs => by
    obtain rfl := bareAll_eq_nil h
    exact hvs
  | t :: ts, us, h, vs, hvs => by
    obtain ⟨u, us, rfl, hu, hus⟩ := bareAll_eq_cons h
    obtain ⟨v, hv, hvs⟩ := of_bind_eq_ok hvs
    obtain ⟨vs', hvs', hvs⟩ := of_bind_eq_ok hvs
    rw [readLiterals, readLiteral_of_bare t u hu v hv, readLiterals_of_bare ts us hus vs' hvs']
    exact hvs

lemma readEntries_of_bare : ∀ (ts us : List TokenTree), bareAll us = bareAll ts → ∀ es,
    readEntries ts = .ok es → readEntries us = .ok es
  | [], us, h, es, hes => by
    obtain rfl := bareAll_eq_nil h
    exact hes
  | key :: ts, us, h, es, hes => by
    obtain ⟨key', us, rfl, hkey, hus⟩ := bareAll_eq_cons h
    obtain ⟨k, v, es', rest, hk, rfl, hrest, hvalue⟩ := readEntries_cons_eq_ok.1 hes
    have hk' : key? key' = some k := by rw [← hk, ← key?_bare, hkey, key?_bare]
    rcases hvalue with ⟨span, t, rfl, ht⟩ | ⟨word, span, rfl, hword⟩
    · obtain ⟨c, us, rfl, hc, hus'⟩ := bareAll_eq_cons hus
      obtain ⟨u, us, rfl, hu, hrest'⟩ := bareAll_eq_cons hus'
      obtain ⟨span, rfl⟩ := bare_eq_leaf hc
      exact readEntries_cons_eq_ok.2 ⟨k, v, es', us, hk', rfl,
        readEntries_of_bare rest us hrest' es' hrest,
        .inl ⟨span, u, rfl, readLiteral_of_bare t u hu v ht⟩⟩
    · obtain ⟨c, us, rfl, hc, hrest'⟩ := bareAll_eq_cons hus
      obtain ⟨span, rfl⟩ := bare_eq_leaf hc
      exact readEntries_cons_eq_ok.2 ⟨k, v, es', us, hk', rfl,
        readEntries_of_bare rest us hrest' es' hrest, .inr ⟨word, span, rfl, hword⟩⟩

end

end Form

namespace Val

variable {v : Val} {k : String}

/-- The trees of a value after the key, given its tree elsewhere. A keyword is lexed as a tag
together with the colon. -/
def afterKey (v : Val) (t : TokenTree) : List TokenTree :=
  match v with
  | null => [.leaf (.tag "null") .none]
  | bool b => [.leaf (.tag (if b then "true" else "false")) .none]
  | _ => [.leaf .colon .none, t]

mutual

def tree : Val → TokenTree
  | null => .leaf .null .none
  | bool b => .leaf (.bool b) .none
  | int n => .leaf (.int n) .none
  | real x => .leaf (.real x) .none
  | str s => .leaf (.str s) .none
  | list items => .group .square (trees items) .none
  | dict entries => .group .curly (entryTrees entries) .none
  | typ t => .leaf (.symbol t.text) .none
  | fn f => .leaf (.symbol f.text) .none

def trees : List Val → List TokenTree
  | [] => []
  | v :: vs => v.tree :: trees vs

def entryTrees : List (String × Val) → List TokenTree
  | [] => []
  | (k, v) :: es => .leaf (.symbol k) .none :: (afterKey v v.tree ++ entryTrees es)

end

/-- Whether the text of the value does not go on with the name of a tag after a colon. Keywords do,
but are read all the same. -/
def followsColon : Val → Bool
  | typ t => t.text.toList.head?.all fun c => !isNameHead c
  | _ => true

mutual

/-- The text of the value is read as the value. -/
def Legible : Val → Prop
  | null | bool _ | int _ | str _ => True
  | real _ | fn _ => False
  | list items => AllLegible items
  | dict entries => EntriesLegible entries
  | typ t => t.ReadsAsWord

def AllLegible : List Val → Prop
  | [] => True
  | v :: vs => v.Legible ∧ AllLegible vs

def EntriesLegible : List (String × Val) → Prop
  | [] => True
  | (k, v) :: es => (Token.symbol k).Legible ∧ v.Legible ∧ v.followsColon ∧ EntriesLegible es

end

/-! ## Lexing -/

lemma head_text {r : List Char} (hv : v.Legible) (hcolon : v.followsColon)
    (hbool : ∀ b, v ≠ .bool b) (hnull : v ≠ .null) (hr : Closed r) :
    ∀ c ∈ (v.text.toList ++ r).head?, isNameHead c = false := by
  cases v with
  | null => exact absurd rfl hnull
  | bool b => exact absurd rfl (hbool b)
  | real | fn => exact hv.elim
  | str | list | dict =>
    intro c hc
    obtain rfl : c = _ := by simpa [text, Text.quote, eq_comm] using hc
    decide
  | int n =>
    intro c hc
    obtain ⟨d, ds, hrepr, hd⟩ := Text.repr_eq_cons n.toInt.natAbs
    have hnames : ∀ c ∈ '-' :: "0123456789".toList, isNameHead c = false :=
      forall_iff_forall_mem.1 (by decide +kernel)
    refine hnames c ?_
    by_cases hneg : n.toInt < 0
    · obtain rfl : '-' = c := by simpa [text, Text.decimal, hneg] using hc
      exact mem_cons_self
    · obtain rfl : d = c := by simpa [text, Text.decimal, hneg, hrepr] using hc
      exact mem_cons_of_mem _ (mem_digits_of_isDigit hd)
  | typ t =>
    intro c hc
    cases ht : t.text.toList with
    | nil =>
      rw [text, ht] at hc
      exact (of_mem_closing c (hr c hc)).2.1
    | cons d w =>
      obtain rfl : d = c := by simpa [text, ht] using hc
      simpa [followsColon, ht] using hcolon

lemma writes_entry (hk : (Token.symbol k).Legible) (hv : v.Legible) (hcolon : v.followsColon)
    (h : Writes v.text.toList v.tree.tokens) :
    Writes (k ++ ":" ++ v.text).toList (.symbol k :: tokensAll (afterKey v v.tree)) := by
  cases v with
  | null => exact .tagged hk rfl
  | bool b => cases b <;> exact .tagged hk rfl
  | _ =>
    have hentry := Writes.colon hk h fun r => head_text hv hcolon nofun nofun
    simpa [afterKey, tokensAll, tokens] using hentry

mutual

lemma writes_text : ∀ v : Val, v.Legible → Writes v.text.toList v.tree.tokens
  | null, _ => .token legible_null nofun
  | bool b, _ => by
    have hbool := Writes.token (legible_bool b) nofun
    cases b <;> exact hbool
  | int n, _ => .token (legible_int n) nofun
  | str s, _ => .token (t := .str s) (legible_str s) nofun
  | typ t, h => .token h.legible nofun
  | list items, h => by
    have hitems := (writes_texts items h).brackets .square
    simpa [text, tree, tokens, Bracket.openChar, Bracket.closeChar] using hitems
  | dict entries, h => by
    have hentries := (writes_entryTexts entries h).brackets .curly
    simpa [text, tree, tokens, Bracket.openChar, Bracket.closeChar] using hentries

lemma writes_texts : ∀ vs : List Val, AllLegible vs →
    Writes (String.intercalate " " (texts vs)).toList (tokensAll (trees vs))
  | [], _ => .nil
  | v :: vs, h => (writes_text v h.1).cons (writes_texts vs h.2)

lemma writes_entryTexts : ∀ es : List (String × Val), EntriesLegible es →
    Writes (String.intercalate " " (entryTexts es)).toList (tokensAll (entryTrees es))
  | [], _ => .nil
  | (k, v) :: es, h => by
    obtain ⟨hk, hv, hcolon, hes⟩ := h
    have hentry := (writes_entry hk hv hcolon (writes_text v hv)).cons (writes_entryTexts es hes)
    simpa [entryTexts, entryTrees, tokensAll, tokens] using hentry

end

/-! ## Reading -/

mutual

lemma leaves_tree : ∀ v : Val, v.tree.Leaves fun t _ => t.isBracket = false
  | null | bool _ | int _ | real _ | str _ | typ _ | fn _ => rfl
  | list items => leavesAll_trees items
  | dict entries => leavesAll_entryTrees entries

lemma leavesAll_trees : ∀ vs : List Val, LeavesAll (fun t _ => t.isBracket = false) (trees vs)
  | [] => trivial
  | v :: vs => ⟨leaves_tree v, leavesAll_trees vs⟩

lemma leavesAll_entryTrees :
    ∀ es : List (String × Val), LeavesAll (fun t _ => t.isBracket = false) (entryTrees es)
  | [] => trivial
  | (k, v) :: es => by
    have hv := leaves_tree v
    have hes := leavesAll_entryTrees es
    rw [leavesAll_iff] at hes ⊢
    simp only [entryTrees, afterKey, mem_cons, mem_append]
    rintro t (rfl | ht | ht)
    · rfl
    · split at ht <;> grind [Leaves, isBracket]
    · exact hes t ht

end

mutual

lemma readLiteral_tree : ∀ v : Val, v.Legible → Form.readLiteral v.tree = .ok v
  | null, _ | bool _, _ | int _, _ | str _, _ => rfl
  | typ t, h => by
    rw [tree, Form.readLiteral, if_pos h.isTypeWord, Form.readType, h.parse]
    rfl
  | list items, h => by
    rw [tree, Form.readLiteral, readLiterals_trees items h]
    rfl
  | dict entries, h => by
    rw [tree, Form.readLiteral, readEntries_trees entries h]
    rfl

lemma readLiterals_trees : ∀ vs : List Val, AllLegible vs → Form.readLiterals (trees vs) = .ok vs
  | [], _ => rfl
  | v :: vs, h => by
    rw [trees, Form.readLiterals, readLiteral_tree v h.1, readLiterals_trees vs h.2]
    rfl

lemma readEntries_trees : ∀ es : List (String × Val), EntriesLegible es →
    Form.readEntries (entryTrees es) = .ok es
  | [], _ => by rw [entryTrees, Form.readEntries]
  | (k, v) :: es, h => by
    obtain ⟨hk, hv, hcolon, hes⟩ := h
    refine Form.readEntries_cons_eq_ok.2 ⟨k, v, es, entryTrees es, rfl, rfl,
      readEntries_trees es hes, ?_⟩
    unfold afterKey
    split
    · exact .inr ⟨_, _, rfl, rfl⟩
    · next b => exact .inr ⟨_, _, rfl, by cases b <;> rfl⟩
    · exact .inl ⟨_, _, rfl, readLiteral_tree v hv⟩

end

/-! ## Plain values -/

/-- Keys that are lexed as one symbol. -/
def isSymbolKey (k : String) : Bool :=
  match lex k.toList with
  | ([(.symbol s, _)], []) => s == k
  | _ => false

mutual

/-- Null, booleans, integers, strings, and lists and dicts of such values whose keys are symbols. -/
def isPlain : Val → Bool
  | null | bool _ | int _ | str _ => true
  | list items => arePlain items
  | dict entries => areEntriesPlain entries
  | real _ | typ _ | fn _ => false

def arePlain : List Val → Bool
  | [] => true
  | v :: vs => v.isPlain && arePlain vs

def areEntriesPlain : List (String × Val) → Bool
  | [] => true
  | (k, v) :: es => isSymbolKey k && v.isPlain && areEntriesPlain es

end

lemma legible_of_isSymbolKey (h : isSymbolKey k) : (Token.symbol k).Legible := by
  unfold isSymbolKey at h
  split at h
  · next s span hlex =>
    obtain rfl : s = k := by simpa using h
    have hmem : (Token.symbol s, span) ∈ (lex s.toList).1 := by simp [hlex]
    exact legible_of_mem_lex rfl hmem
  · simp at h

lemma followsColon_of_isPlain (h : v.isPlain) : v.followsColon := by
  cases v <;> simp_all [isPlain, followsColon]

mutual

lemma legible_of_isPlain : ∀ v : Val, v.isPlain → v.Legible
  | null, _ | bool _, _ | int _, _ | str _, _ => trivial
  | list items, h => allLegible_of_arePlain items h
  | dict entries, h => entriesLegible_of_areEntriesPlain entries h

lemma allLegible_of_arePlain : ∀ vs : List Val, arePlain vs → AllLegible vs
  | [], _ => trivial
  | v :: vs, h => by
    rw [arePlain, Bool.and_eq_true] at h
    exact ⟨legible_of_isPlain v h.1, allLegible_of_arePlain vs h.2⟩

lemma entriesLegible_of_areEntriesPlain : ∀ es : List (String × Val), areEntriesPlain es →
    EntriesLegible es
  | [], _ => trivial
  | (k, v) :: es, h => by
    rw [areEntriesPlain, Bool.and_eq_true, Bool.and_eq_true] at h
    exact ⟨legible_of_isSymbolKey h.1.1, legible_of_isPlain v h.1.2, followsColon_of_isPlain h.1.2,
      entriesLegible_of_areEntriesPlain es h.2⟩

end

end Val

end Resolvent
