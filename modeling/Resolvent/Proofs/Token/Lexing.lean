import Resolvent.Proofs.Token.Pattern
import Mathlib.Data.List.Induction
import Mathlib.Tactic.FinCases

/-!
# Lexing what has been printed

A token is legible if its text is lexed as the token.
-/

namespace Resolvent

open Option
open List hiding all

variable {c : Char} {s x : String}

namespace LexClass

variable {cs w r cs' : List Char} {k : LexClass} {n : Nat} {ks : List LexClass}

/-! ## The longest lexeme -/

def record : Option (LexClass × Nat) → Nat
  | some (_, n) => n
  | none => 0

def better (cs : List Char) (best : Option (LexClass × Nat)) (k : LexClass) :
    Option (LexClass × Nat) :=
  if record best < k.length cs then some (k, k.length cs) else best

lemma longest_eq (cs : List Char) : longest cs = all.foldl (better cs) none := rfl

lemma longest_congr (h : ∀ k ∈ all, k.length cs = k.length cs') : longest cs = longest cs' := by
  rw [longest_eq, longest_eq]
  refine foldl_ext _ _ _ fun best k hk => ?_
  rw [better, better, h k hk]

lemma le_record_better (cs : List Char) (best : Option (LexClass × Nat)) (k : LexClass) :
    record best ≤ record (better cs best k) ∧ k.length cs ≤ record (better cs best k) := by
  unfold better
  split
  · next h => exact ⟨h.le, le_rfl⟩
  · next h => exact ⟨le_rfl, not_lt.1 h⟩

lemma le_record_foldl (cs : List Char) (ks : List LexClass) (best : Option (LexClass × Nat)) :
    record best ≤ record (ks.foldl (better cs) best) ∧
    ∀ k ∈ ks, k.length cs ≤ record (ks.foldl (better cs) best) := by
  induction ks generalizing best with
  | nil => simp
  | cons k ks ih =>
    have hstep := le_record_better cs best k
    have hrest := ih (better cs best k)
    grind

lemma record_foldl_lt (h : ∀ k ∈ ks, k.length cs < n) (best : Option (LexClass × Nat))
    (hbest : record best < n) : record (ks.foldl (better cs) best) < n := by
  induction ks generalizing best with
  | nil => exact hbest
  | cons k ks ih =>
    refine ih (fun j hj => h j (by simp [hj])) _ ?_
    unfold better
    split
    · exact h k (by simp)
    · exact hbest

lemma foldl_better_of_le (h : ∀ j ∈ ks, j.length cs ≤ n) :
    ks.foldl (better cs) (some (k, n)) = some (k, n) := by
  induction ks with
  | nil => rfl
  | cons j ks ih =>
    have hj := h j (by simp)
    rw [foldl_cons, better, if_neg (by simpa [record] using hj)]
    exact ih fun j hj => h j (by simp [hj])

lemma foldl_better_eq_some_iff : ks.foldl (better cs) none = some (k, n) ↔
    ∃ before after, ks = before ++ k :: after ∧ k.length cs = n ∧ 0 < n ∧
    (∀ j ∈ before, j.length cs < n) ∧ ∀ j ∈ after, j.length cs ≤ n := by
  constructor
  · intro h
    induction ks using reverseRecOn with
    | nil => simp at h
    | append_singleton ks j ih =>
      rw [foldl_append, foldl_cons, foldl_nil, better] at h
      split at h
      · next hlt =>
        obtain ⟨rfl, rfl⟩ : j = k ∧ j.length cs = n := by simpa using h
        have hbefore := (le_record_foldl cs ks none).2
        exact ⟨ks, [], rfl, rfl, by omega, fun i hi => (hbefore i hi).trans_lt hlt, by simp⟩
      · next hge =>
        obtain ⟨before, after, rfl, hk, hn, hbefore, hafter⟩ := ih h
        rw [h, record, not_lt] at hge
        exact ⟨before, after ++ [j], by simp, hk, hn, hbefore, by grind⟩
  · rintro ⟨before, after, rfl, rfl, hn, hbefore, hafter⟩
    have hrecord := record_foldl_lt hbefore none hn
    rw [foldl_append, foldl_cons, better, if_pos hrecord]
    exact foldl_better_of_le hafter

lemma longest_eq_some_iff : longest cs = some (k, n) ↔ ∃ before after, all = before ++ k :: after ∧
    k.length cs = n ∧ 0 < n ∧ (∀ j ∈ before, j.length cs < n) ∧ ∀ j ∈ after, j.length cs ≤ n :=
  foldl_better_eq_some_iff

lemma longest_take (h : longest cs = some (k, n)) {m : Nat} (hm : n ≤ m) :
    longest (cs.take m) = some (k, n) := by
  obtain ⟨before, after, hall, hk, -, hbefore, hafter⟩ := longest_eq_some_iff.1 h
  rw [← h]
  refine longest_congr fun j hj => (scans_length j).cut cs m (le_trans ?_ hm)
  grind

lemma longest_append (hw : Solid w) (hr : Closed r) : longest (w ++ r) = longest w :=
  longest_congr fun _ hk => length_append hk hw hr

lemma length_of_longest (h : longest cs = some (k, n)) : k.length cs = n ∧ 0 < n ∧
    n ≤ cs.length := by
  obtain ⟨-, -, -, rfl, hn, -, -⟩ := longest_eq_some_iff.1 h
  exact ⟨rfl, hn, length_le k cs⟩

/-! ## The first character -/

lemma longest_cons (c : Char) (r : List Char) :
    longest (c :: r) = (all.filter (admits · c)).foldl (better (c :: r)) none := by
  rw [longest_eq, foldl_filter]
  refine foldl_ext _ _ _ fun best k _ => ?_
  split
  · rfl
  · next h => rw [better, length_of_not_admits (by simpa using h), if_neg (Nat.not_lt_zero _)]

lemma mem_of_longest (h : longest (c :: r) = some (k, n)) : k ∈ all.filter (admits · c) := by
  obtain ⟨before, after, hall, -⟩ := foldl_better_eq_some_iff.1 ((longest_cons c r).symm.trans h)
  simp [hall]

lemma longest_blank (hc : isBlank c) (r : List Char) :
    longest (c :: r) = some (blank, run isBlank r + 1) := by
  have hfilter : all.filter (admits · c) = [blank] := by
    simp only [isBlank, Bool.or_eq_true, beq_iff_eq] at hc
    rcases hc with ((rfl | rfl) | rfl) | rfl <;> rfl
  rw [longest_cons, hfilter]
  simp [better, record, run_cons_of_pos hc]

lemma mem_digits_of_isDigit (h : Text.isDigit c) : c ∈ "0123456789".toList := by
  have hlist : ∀ m ∈ range' 48 10, Char.ofNat m ∈ "0123456789".toList := by decide
  have hrange : c.toNat ∈ range' 48 10 := by
    simp only [Text.isDigit, Bool.and_eq_true, decide_eq_true_eq] at h
    rw [mem_range'_1]
    exact ⟨h.1, Nat.lt_succ_of_le h.2⟩
  simpa using hlist c.toNat hrange

lemma filter_admits_digit : ∀ c ∈ '-' :: "0123456789".toList, ∃ after, all.filter (admits · c) =
    real :: int :: after := by
  intro c hc
  fin_cases hc <;> exact ⟨_, rfl⟩

lemma longest_digits (hne : (minus w).2 ≠ []) (h : ∀ d ∈ (minus w).2, Text.isDigit d) :
    longest w = some (int, w.length) := by
  have hrun : run Text.isDigit (minus w).2 = (minus w).2.length := by
    rw [run, takeWhile_eq_self_iff.2 h]
  have hlen := length_minus w
  have hint : intLength w = w.length := by simp [intLength, hrun, hne, hlen]
  have hreal : realLength w = 0 := by simp [realLength_eq, hrun]
  cases w with
  | nil => exact absurd rfl hne
  | cons c r =>
    have hc : c ∈ '-' :: "0123456789".toList := by
      by_cases hc : c = '-'
      · simp [hc]
      · exact mem_cons_of_mem _ (mem_digits_of_isDigit (h c (by simp [minus, hc])))
    obtain ⟨after, hclasses⟩ := filter_admits_digit c hc
    rw [longest_cons, hclasses, foldl_better_eq_some_iff]
    exact ⟨[real], after, rfl, hint, by simp, by simp [hreal], fun j _ => length_le j _⟩

end LexClass

open LexClass

variable {cs w r : List Char} {t : Token} {n : Nat}

lemma firstLexeme_eq_token_iff : firstLexeme cs = (.token t, n) ↔
    ∃ k, longest cs = some (k, n) ∧ k.isSkipped = false ∧ k.token? (cs.take n) = some t := by
  unfold firstLexeme
  cases h : longest cs with
  | none => simp
  | some kn =>
    obtain ⟨k, m⟩ := kn
    grind

lemma firstLexeme_blank (hc : isBlank c) (r : List Char) :
    firstLexeme (c :: r) = (.skipped, run isBlank r + 1) := by
  simp [firstLexeme, longest_blank hc, isSkipped]

lemma firstLexeme_append (hw : Solid w) (hr : Closed r) (h : firstLexeme w = (.token t, n)) :
    firstLexeme (w ++ r) = (.token t, n) := by
  rw [firstLexeme_eq_token_iff] at h ⊢
  obtain ⟨k, hlongest, hskip, htoken⟩ := h
  obtain ⟨-, -, hn⟩ := length_of_longest hlongest
  exact ⟨k, by rw [longest_append hw hr, hlongest], hskip, by rwa [take_append_of_le_length hn]⟩

lemma firstLexeme_take {l : Lexeme} (h : firstLexeme cs = (l, n)) (hl : l ≠ .bad) {m : Nat}
    (hm : n ≤ m) : firstLexeme (cs.take m) = (l, n) := by
  unfold firstLexeme at h ⊢
  cases hlongest : longest cs with
  | none => simp_all
  | some kn =>
    obtain rfl : kn.2 = n := by grind
    rw [longest_take hlongest hm]
    simp only [take_take, min_eq_left hm]
    rwa [hlongest] at h

lemma solid_of_firstLexeme (h : firstLexeme w = (.token t, n)) (ht : ∀ s, t ≠ .str s) :
    Solid w := by
  obtain ⟨k, hlongest, hskip, htoken⟩ := firstLexeme_eq_token_iff.1 h
  cases w with
  | nil =>
    obtain ⟨-, hpos, hle⟩ := length_of_longest hlongest
    exact absurd hpos (Nat.not_lt.2 hle)
  | cons c w =>
    refine ⟨c, w, rfl, ?_, ?_, ?_⟩
    · by_contra hblank
      rw [firstLexeme_blank (by simpa using hblank)] at h
      simp at h
    · rintro rfl
      have hk : k ∈ [comment] := mem_of_longest hlongest
      simp_all [isSkipped]
    · rintro rfl
      have hk : k ∈ [str] := mem_of_longest hlongest
      obtain rfl : k = str := by simpa using hk
      obtain ⟨body, -, rfl⟩ := map_eq_some_iff.1 htoken
      exact ht _ rfl

namespace Token

/-! ## Legible tokens -/

/-- A token as source text. -/
def text : Token → List Char
  | opening b => [b.openChar]
  | closing b => [b.closeChar]
  | colon => [':']
  | plus => ['+']
  | real x => (Real.text x).toList
  | int n => (Text.decimal n.toInt).toList
  | str s => (Text.quote s).toList
  | bool b => if b then "true".toList else "false".toList
  | null => "null".toList
  | tag n => ':' :: n.toList
  | decl n => '+' :: n.toList
  | path s | symbol s => s.toList

@[simp] lemma text_opening (b : Bracket) : (opening b).text = [b.openChar] := rfl

@[simp] lemma text_closing (b : Bracket) : (closing b).text = [b.closeChar] := rfl

@[simp] lemma text_colon : colon.text = [':'] := rfl

@[simp] lemma text_plus : plus.text = ['+'] := rfl

@[simp] lemma text_int (n : Int64) : (int n).text = (Text.decimal n.toInt).toList := rfl

@[simp] lemma text_tag (n : String) : (tag n).text = ':' :: n.toList := rfl

@[simp] lemma text_decl (n : String) : (decl n).text = '+' :: n.toList := rfl

@[simp] lemma text_path (s : String) : (path s).text = s.toList := rfl

@[simp] lemma text_symbol (s : String) : (symbol s).text = s.toList := rfl

/-- The text of the token is lexed as the token. -/
def Legible (t : Token) : Prop := firstLexeme t.text = (.token t, t.text.length)

/-- The token ends where the text after it starts. Brackets and strings show their end themselves.
-/
def EndsBefore (t : Token) (r : List Char) : Prop :=
  match t with
  | opening _ | closing _ | str _ => True
  | colon => ∀ c ∈ r.head?, isNameHead c = false
  | _ => Closed r

lemma firstLexeme_opening (b : Bracket) (r : List Char) :
    firstLexeme (b.openChar :: r) = (.token (.opening b), 1) := by
  have hclasses : all.filter (admits · b.openChar) = [.opening b] := by cases b <;> rfl
  simp [firstLexeme, longest_cons, hclasses, better, record, isSkipped, token?]

lemma firstLexeme_closing (b : Bracket) (r : List Char) :
    firstLexeme (b.closeChar :: r) = (.token (.closing b), 1) := by
  have hclasses : all.filter (admits · b.closeChar) = [.closing b] := by cases b <;> rfl
  simp [firstLexeme, longest_cons, hclasses, better, record, isSkipped, token?]

lemma firstLexeme_colon (hr : ∀ c ∈ r.head?, isNameHead c = false) :
    firstLexeme (':' :: r) = (.token .colon, 1) := by
  have htag : markedLength ':' (':' :: r) = 0 := by
    cases r with
    | nil => rfl
    | cons c r => simp [markedLength, hr c (by simp)]
  have hclasses : all.filter (admits · ':') = [.colon, .tag] := rfl
  simp [firstLexeme, longest_cons, hclasses, better, record, htag, isSkipped, token?]

lemma firstLexeme_body {b : List Char} (h : Text.Body b) (r : List Char) :
    firstLexeme ('"' :: (b ++ '"' :: r)) =
    ((Text.unescape b).elim .bad fun s => .token (.str (String.ofList s)), b.length + 2) := by
  have hclasses : all.filter (admits · '"') = [.str] := rfl
  have hlongest : longest ('"' :: (b ++ '"' :: r)) = some (.str, b.length + 2) := by
    simp [longest_cons, hclasses, better, record, strReach_body h, Nat.add_comm 1]
  have htake : ('"' :: (b ++ '"' :: r)).take (b.length + 2) = '"' :: (b ++ ['"']) := by
    simp [take_length_add_append]
  rw [firstLexeme, hlongest]
  simp only [htake, token?, tail_cons, dropLast_concat]
  cases Text.unescape b <;> rfl

lemma firstLexeme_quote (s : String) (r : List Char) :
    firstLexeme ((Text.quote s).toList ++ r) = (.token (.str s), (Text.quote s).toList.length) := by
  have hspells : Text.Spells true _ _ := Text.spells_escape s.toList
  simpa [Text.quote, hspells.unescape_eq] using firstLexeme_body hspells.body r

lemma Legible.firstLexeme_append (ht : t.Legible) (hr : t.EndsBefore r) :
    firstLexeme (t.text ++ r) = (.token t, t.text.length) := by
  cases t with
  | opening b => exact firstLexeme_opening b r
  | closing b => exact firstLexeme_closing b r
  | colon => exact firstLexeme_colon hr
  | str s => exact firstLexeme_quote s r
  | plus | real | int | bool | null | tag | decl | path | symbol =>
    exact Resolvent.firstLexeme_append (solid_of_firstLexeme ht nofun) hr ht

lemma minus_decimal (n : Int) :
    (minus (Text.decimal n).toList).2 ≠ [] ∧ ∀ d ∈ (minus (Text.decimal n).toList).2,
    Text.isDigit d := by
  obtain ⟨c, cs, hrepr, hc⟩ := Text.repr_eq_cons n.natAbs
  have hdigits (d : Char) (hd : d ∈ c :: cs) : Text.isDigit d :=
    Text.isDigit_of_mem_repr (n := n.natAbs) (hrepr ▸ hd)
  have hminus : (minus (Text.decimal n).toList).2 = c :: cs := by
    unfold Text.decimal
    split
    · simp [minus, hrepr]
    · have hne : c ≠ '-' := by
        rintro rfl
        exact absurd hc (by decide)
      simp [minus, hrepr, hne]
  rw [hminus]
  exact ⟨by simp, hdigits⟩

lemma legible_opening (b : Bracket) : (opening b).Legible := firstLexeme_opening b []

lemma legible_closing (b : Bracket) : (closing b).Legible := firstLexeme_closing b []

lemma legible_colon : colon.Legible := firstLexeme_colon (by simp)

lemma legible_plus : plus.Legible := by
  have hclasses : all.filter (admits · '+') = [.plus, .decl] := rfl
  simp [Legible, firstLexeme, longest_cons, hclasses, better, record, markedLength,
    isSkipped, token?]

lemma legible_bool (b : Bool) : (bool b).Legible := by cases b <;> rfl

lemma legible_null : null.Legible := rfl

lemma legible_str (s : String) : (str s).Legible := by
  have hquote := firstLexeme_quote s []
  rwa [append_nil] at hquote

lemma legible_int (n : Int64) : (int n).Legible := by
  have hdigits := minus_decimal n.toInt
  refine firstLexeme_eq_token_iff.2 ⟨.int, longest_digits hdigits.1 hdigits.2, rfl, ?_⟩
  rw [take_length, token?, text_int, Text.integer64?_decimal, map_some]

def isName : Token → Bool
  | tag _ | decl _ | path _ | symbol _ => true
  | _ => false

lemma text_of_token? {k : LexClass} (hk : k ∈ all) (hc : k.admits c) (ht : t.isName)
    (h : k.token? (c :: w) = some t) : k ∈ [LexClass.tag, .decl, .path, .symbol] ∧
    t.text = c :: w := by
  cases k with
  | blank | comment => simp [token?] at h
  | opening | closing | colon | plus =>
    obtain rfl := some.inj h
    simp [isName] at ht
  | real | int | str =>
    obtain ⟨_, _, rfl⟩ := map_eq_some_iff.1 h
    simp [isName] at ht
  | keyword word t' =>
    obtain rfl := some.inj h
    simp only [all, mem_cons, reduceCtorEq, not_mem_nil, false_or, or_false] at hk
    rcases hk with ⟨-, rfl⟩ | ⟨-, rfl⟩ | ⟨-, rfl⟩ <;> simp [isName] at ht
  | tag | decl | path | symbol =>
    obtain rfl := some.inj h
    simp_all [admits]

lemma legible_of_firstLexeme (ht : t.isName) (h : firstLexeme cs = (.token t, n)) : t.Legible := by
  obtain ⟨k, hlongest, hskip, htoken⟩ := firstLexeme_eq_token_iff.1 h
  obtain ⟨hk, hpos, hle⟩ := length_of_longest hlongest
  obtain ⟨c, cs, rfl⟩ := exists_cons_of_length_pos (hpos.trans_le hle)
  obtain ⟨m, rfl⟩ := Nat.exists_eq_add_one_of_ne_zero hpos.ne'
  obtain ⟨hall, hadmits⟩ := mem_filter.1 (mem_of_longest hlongest)
  have htext := (text_of_token? hall hadmits ht htoken).2
  have hlen : t.text.length = m + 1 := by simpa [htext] using hle
  have htake := firstLexeme_take h (by simp) le_rfl
  rwa [take_succ_cons, ← htext, ← hlen] at htake

lemma Legible.exists_class (h : t.Legible) (ht : t.isName) :
    ∃ k ∈ [LexClass.tag, .decl, .path, .symbol], ∃ c r,
    t.text = c :: r ∧ k.admits c ∧ k.length (c :: r) = r.length + 1 ∧
    k.token? (c :: r) = some t := by
  obtain ⟨k, hlongest, -, htoken⟩ := firstLexeme_eq_token_iff.1 h
  obtain ⟨hlength, hpos, -⟩ := length_of_longest hlongest
  obtain ⟨c, r, hr⟩ := exists_cons_of_length_pos hpos
  rw [take_length, hr] at htoken
  rw [hr] at hlongest hlength
  obtain ⟨hall, hadmits⟩ := mem_filter.1 (mem_of_longest hlongest)
  exact ⟨k, (text_of_token? hall hadmits ht htoken).1, c, r, hr, hadmits, hlength, htoken⟩

lemma Legible.head_path (h : (path s).Legible) : s.toList.head? = some '.' := by
  obtain ⟨k, hk, c, r, hs, hadmits, -, htoken⟩ := h.exists_class rfl
  simp only [mem_cons, not_mem_nil, or_false] at hk
  rcases hk with rfl | rfl | rfl | rfl <;> simp_all [token?, admits]

lemma Legible.symbol_chars (h : (symbol s).Legible) : s.toList.head? ≠ some '.' ∧ ∀ c ∈ s.toList,
    isSymbolTail c := by
  obtain ⟨k, hk, c, r, hs, hadmits, hlength, htoken⟩ := h.exists_class rfl
  simp only [mem_cons, not_mem_nil, or_false] at hk
  obtain rfl : k = .symbol := by rcases hk with rfl | rfl | rfl | rfl <;> simp_all [token?]
  have hhead : isSymbolHead c := hadmits
  have hrun : run isSymbolTail r = r.length := by
    simp only [length_symbol, if_pos hhead] at hlength
    omega
  change s.toList = c :: r at hs
  rw [hs]
  constructor
  · rintro ⟨⟩
    exact absurd hhead (by decide)
  · refine forall_mem_cons.2 ⟨by simp [isSymbolTail, hhead], ?_⟩
    exact takeWhile_eq_self_iff.1 (( takeWhile_prefix _).eq_of_length hrun)

/-! ## Texts and their tokens -/

/-- The text is lexed as the tokens, with blanks and comments between them and nothing bad. -/
inductive Lexed : List Char → List Token → Prop
  | nil : Lexed [] []
  | token {t : Token} {w r : List Char} {ts : List Token}
      (h : firstLexeme (w ++ r) = (.token t, w.length)) (hr : Lexed r ts) : Lexed (w ++ r) (t :: ts)
  | skipped {w r : List Char} {ts : List Token} (h : firstLexeme (w ++ r) = (.skipped, w.length))
      (hr : Lexed r ts) : Lexed (w ++ r) ts

variable {ts : List Token} {span : Span} {l : Lexeme}

lemma Lexed.legible (ht : t.Legible) (hr : t.EndsBefore r) (h : Lexed r ts) :
    Lexed (t.text ++ r) (t :: ts) :=
  .token (ht.firstLexeme_append hr) h

lemma Lexed.blank (h : Lexed r ts) : Lexed (' ' :: r) ts := by
  have hblank : firstLexeme (' ' :: r) = (.skipped, run isBlank r + 1) := firstLexeme_blank rfl r
  by_cases hrun : run isBlank r = 0
  · exact .skipped (w := [' ']) (by simpa [hrun] using hblank) h
  · -- The text starts with blanks itself, and one more joins them.
    have hfirst : firstLexeme r = (.skipped, run isBlank r) := by
      cases r with
      | nil => exact absurd rfl hrun
      | cons c r =>
        have hc : isBlank c := by
          by_contra hc
          simp [run, hc] at hrun
        rw [firstLexeme_blank hc, run_cons_of_pos hc]
    cases h with
    | nil => exact absurd rfl hrun
    | token h hr => simp [hfirst] at h
    | @skipped w r _ h hr =>
      obtain ⟨-, hlen⟩ := Prod.mk.inj (hfirst.symm.trans h)
      exact .skipped (w := ' ' :: w) (by simpa [hlen] using hblank) hr

lemma filterMap_tokenOf_map (φ : Span → Span) (ls : List (Lexeme × Span)) :
    (ls.map (Prod.map id φ)).filterMap tokenOf = (ls.filterMap tokenOf).map (Prod.map id φ) := by
  rw [filterMap_map, map_filterMap]
  refine filterMap_congr fun l _ => ?_
  obtain ⟨l, s⟩ := l
  cases l <;> rfl

lemma filterMap_badOf_map (φ : Span → Span) (ls : List (Lexeme × Span)) :
    (ls.map (Prod.map id φ)).filterMap badOf = (ls.filterMap badOf).map φ := by
  rw [filterMap_map, map_filterMap]
  refine filterMap_congr fun l _ => ?_
  obtain ⟨l, s⟩ := l
  cases l <;> rfl

lemma lex_eq_wrap (cs : List Char) :
    lex cs = (((lexemes 0 cs).filterMap tokenOf).map (Prod.map id Span.wrap),
    ((((lexemes 0 cs).filterMap badOf).map Span.wrap).foldl joinAdjacent []).reverse) := by
  rw [lex, filterMap_tokenOf_map, filterMap_badOf_map]

lemma lexemes_append (h : firstLexeme (w ++ r) = (l, w.length)) (hw : w ≠ []) (offset : Nat) :
    lexemes offset (w ++ r) =
      (l, ⟨offset, offset + byteLength w⟩) :: lexemes (offset + byteLength w) r := by
  cases w with
  | nil => exact absurd rfl hw
  | cons c w =>
    rw [cons_append] at h ⊢
    rw [lexemes, h]
    simp

lemma lexemes_single (h : firstLexeme w = (l, w.length)) (hw : w ≠ []) (offset : Nat) :
    lexemes offset w = [(l, ⟨offset, offset + byteLength w⟩)] := by
  have hlexemes := lexemes_append (r := []) (by simpa using h) hw offset
  rwa [append_nil, lexemes] at hlexemes

lemma pos_of_firstLexeme (h : firstLexeme cs = (l, n)) (hl : l ≠ .bad) : 0 < n := by
  unfold firstLexeme at h
  split at h
  · grind
  · next k m hlongest =>
    have hpos := (length_of_longest hlongest).2.1
    grind

lemma Lexed.lexemes_eq (h : Lexed cs ts) (offset : Nat) :
    ((lexemes offset cs).filterMap tokenOf).map (·.1) = ts ∧
    (lexemes offset cs).filterMap badOf = [] := by
  induction h generalizing offset with
  | nil => simp [lexemes]
  | token h hr ih =>
    rw [lexemes_append h (length_pos_iff.1 (pos_of_firstLexeme h (by simp)))]
    exact ⟨congrArg (_ :: ·) (ih _).1, (ih _).2⟩
  | skipped h hr ih =>
    rw [lexemes_append h (length_pos_iff.1 (pos_of_firstLexeme h (by simp)))]
    exact ih _

lemma Lexed.lex_eq (h : Lexed cs ts) : (lex cs).1.map (·.1) = ts ∧ (lex cs).2 = [] := by
  obtain ⟨htokens, hbad⟩ := h.lexemes_eq 0
  simp [lex_eq_wrap, hbad, ← htokens]

lemma firstLexeme_of_mem_lexemes {offset : Nat} (h : (l, span) ∈ lexemes offset cs) :
    ∃ r n, firstLexeme r = (l, n) := by
  fun_induction lexemes offset cs with
  | case1 => simp at h
  | case2 offset c cs lexeme n hfirst stop ih =>
    rcases mem_cons.1 h with heq | hrest
    · obtain ⟨rfl, -⟩ := Prod.mk.inj heq
      exact ⟨_, _, hfirst⟩
    · exact ih hrest

lemma mem_tokens {ls : List (Lexeme × Span)} : (t, span) ∈ ls.filterMap tokenOf ↔
    (.token t, span) ∈ ls := by
  rw [mem_filterMap]
  constructor
  · rintro ⟨⟨l, s⟩, hl, h⟩
    cases l <;> cases h
    exact hl
  · exact fun h => ⟨_, h, rfl⟩

lemma legible_of_mem_lex (ht : t.isName) (h : (t, span) ∈ (lex cs).1) : t.Legible := by
  rw [lex_eq_wrap] at h
  obtain ⟨⟨_, span'⟩, hmem, heq⟩ := List.mem_map.1 h
  obtain ⟨rfl, -⟩ := Prod.mk.inj heq
  obtain ⟨r, n, hfirst⟩ := firstLexeme_of_mem_lexemes (mem_tokens.1 hmem)
  exact legible_of_firstLexeme ht hfirst

lemma Lexed.eq_nil (h : Lexed [] ts) : ts = [] := by simpa [lexemes] using (h.lexemes_eq 0).1.symm

/-! ## Printed texts -/

def Writes (w : List Char) (ts : List Token) : Prop :=
  ∀ r us, Closed r → Lexed r us → Lexed (w ++ r) (ts ++ us)

namespace Writes

variable {w w' : List Char} {ts ts' : List Token}

lemma closed_nil : Closed [] := by simp [Closed]

lemma closed_cons (hc : c ∈ [' ', ')', ']', '\x7d', ':']) (r : List Char) : Closed (c :: r) := by
  simpa [Closed] using hc

lemma nil : Writes [] [] := fun _ _ _ h => h

lemma lexed (h : Writes w ts) : Lexed w ts := by simpa using h [] [] closed_nil .nil

lemma token {t : Token} (ht : t.Legible) (hcolon : t ≠ .colon) : Writes t.text [t] := by
  intro r us hr h
  refine h.legible ht ?_
  cases t with
  | colon => exact absurd rfl hcolon
  | opening | closing | str => trivial
  | _ => exact hr

lemma blank (hw : Writes w ts) (hw' : Writes w' ts') : Writes (w ++ ' ' :: w') (ts ++ ts') := by
  intro r us hr h
  rw [append_assoc, append_assoc]
  exact hw _ _ (closed_cons (by simp) _) (hw' r us hr h).blank

lemma brackets (b : Bracket) (hw : Writes w ts) :
    Writes (b.openChar :: (w ++ [b.closeChar])) (.opening b :: (ts ++ [.closing b])) := by
  intro r us hr h
  have hclose : Lexed (b.closeChar :: r) (.closing b :: us) := h.legible (legible_closing b) trivial
  have hinner := hw _ _ (closed_cons (by cases b <;> decide) r) hclose
  have hopen := hinner.legible (legible_opening b) trivial
  simpa using hopen

lemma cons {xs : List String} (hx : Writes x.toList ts)
    (hxs : Writes (String.intercalate " " xs).toList ts') :
    Writes (String.intercalate " " (x :: xs)).toList (ts ++ ts') := by
  cases xs with
  | nil =>
    obtain rfl : ts' = [] := Lexed.eq_nil (by simpa using hxs.lexed)
    simpa using hx
  | cons y ys =>
    simpa using hx.blank hxs

lemma tagged {k n : String} (hk : (symbol k).Legible) (hn : (tag n).Legible) :
    Writes (k ++ ":" ++ n).toList [symbol k, tag n] := by
  intro r us hr h
  have htag := token hn nofun r us hr h
  have hkey := token hk nofun _ _ (closed_cons (by simp) _) htag
  simpa using hkey

lemma colon {k : String} (hk : (symbol k).Legible) (hx : Writes x.toList ts)
    (hhead : ∀ r, Closed r → ∀ c ∈ (x.toList ++ r).head?, isNameHead c = false) :
    Writes (k ++ ":" ++ x).toList (symbol k :: .colon :: ts) := by
  intro r us hr h
  have hcolon := (hx r us hr h).legible legible_colon (hhead r hr)
  have hkey := token hk nofun _ _ (closed_cons (by simp) _) hcolon
  simpa using hkey

end Writes

end Token

end Resolvent
