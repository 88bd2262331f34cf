import Resolvent.Proofs.Text.Quoted
import Mathlib.Data.List.TakeDrop
import Mathlib.Data.List.TakeWhile

/-!
# Lexemes and what follows them

How long the lexeme of a class at the start of a text is, compared with the text cut off or
continued.
-/

namespace Resolvent.LexClass

open List

variable {p : Char → Bool} {P : Char → Prop} {f g : List Char → Nat} {c : Char}
  {w r word : List Char} {k : LexClass}

/-! ## Runs -/

lemma run_cons_of_pos (h : p c) (r : List Char) : run p (c :: r) = run p r + 1 := by
  simp [run, h]

lemma run_take (p : Char → Bool) (w : List Char) (n : Nat) :
    run p (w.take n) = min n (run p w) := by
  induction w generalizing n with
  | nil => simp [run]
  | cons c w ih =>
    cases n with
    | zero => simp [run]
    | succ n =>
      by_cases hc : p c
      · simp [run_cons_of_pos hc, ih]
      · simp [run, hc]

lemma take_run (p : Char → Bool) (w : List Char) : w.take (run p w) = w.takeWhile p :=
  (prefix_iff_eq_take.1 ( takeWhile_prefix p)).symm

/-! ## Scanners -/

/-- A scanner gives the length of the lexeme at the start of a text. What is behind the lexeme makes
no difference to it. -/
structure Scans (P : Char → Prop) (f : List Char → Nat) : Prop where
  le : ∀ w : List Char, f w ≤ w.length
  cut : ∀ (w : List Char) (n : Nat), f w ≤ n → f (w.take n) = f w
  chars : ∀ w : List Char, ∀ c ∈ w.take (f w), P c

structure Runs (P : Char → Prop) (f : List Char → Nat) : Prop where
  cut : ∀ (w : List Char) (n : Nat), f (w.take n) = min n (f w)
  chars : ∀ w : List Char, ∀ c ∈ w.take (f w), P c

def head (p : Char → Bool) : List Char → Nat
  | c :: _ => if p c then 1 else 0
  | [] => 0

def both (f g : List Char → Nat) (w : List Char) : Nat := f w + g (w.drop (f w))

def lead (f g : List Char → Nat) (w : List Char) : Nat :=
  if g (w.drop (f w)) = 0 then 0 else both f g w

def guarded (f g : List Char → Nat) (w : List Char) : Nat := if f w = 0 then 0 else g w

def seq (f g : List Char → Nat) : List Char → Nat := guarded f (lead f g)

def cont (f g : List Char → Nat) : List Char → Nat := guarded f (both f g)

lemma seq_head_cons (p : Char → Bool) (g : List Char → Nat) (c : Char) (w : List Char) :
    seq (head p) g (c :: w) = if p c ∧ g w ≠ 0 then 1 + g w else 0 := by
  by_cases hc : p c <;> simp [seq, guarded, lead, both, head, hc]

lemma cont_head_cons (p : Char → Bool) (g : List Char → Nat) (c : Char) (w : List Char) :
    cont (head p) g (c :: w) = if p c then 1 + g w else 0 := by
  by_cases hc : p c <;> simp [cont, guarded, both, head, hc]

lemma Runs.scans (h : Runs P f) : Scans P f where
  le w := by
    have hcut := h.cut w w.length
    rw [take_length] at hcut
    omega
  cut w n hn := by rw [h.cut, min_eq_right hn]
  chars := h.chars

lemma runs_run (h : ∀ c, p c → P c) : Runs P (run p) where
  cut := run_take p
  chars w c hc := h c (mem_takeWhile_imp (take_run p w ▸ hc))

lemma runs_head (h : ∀ c, p c → P c) : Runs P (head p) where
  cut w n := by cases w <;> cases n <;> simp [head]; split <;> omega
  chars w c hc := by
    cases w with
    | nil => simp at hc
    | cons d w =>
      by_cases hd : p d <;> simp [head, hd] at hc
      exact hc ▸ h d hd

namespace Scans

lemma both (hf : Scans P f) (hg : Scans P g) : Scans P (both f g) where
  le w := by
    have hle := hf.le w
    have hle' := hg.le (w.drop (f w))
    rw [length_drop] at hle'
    simp only [LexClass.both]
    omega
  cut w n hn := by
    simp only [LexClass.both] at hn ⊢
    rw [hf.cut w n (by omega), drop_take, hg.cut _ _ (by omega)]
  chars w c hc := by
    rw [LexClass.both, take_add] at hc
    rcases mem_append.1 hc with hc | hc
    · exact hf.chars w c hc
    · exact hg.chars _ c hc

lemma restrict (hg : Scans P g) (hor : ∀ w, f w = 0 ∨ f w = g w)
    (hcut : ∀ w n, f w ≤ n → f (w.take n) = f w) : Scans P f where
  le w := by
    have hle := hg.le w
    have := hor w
    omega
  cut := hcut
  chars w c hc := by
    rcases hor w with h | h <;> rw [h] at hc
    · simp at hc
    · exact hg.chars w c hc

lemma lead (hf : Runs P f) (hg : Scans P g) : Scans P (lead f g) := by
  have hboth := hf.scans.both hg
  refine hboth.restrict (fun w => ite_eq_or_eq ..) fun w n hn => ?_
  unfold LexClass.lead at hn ⊢
  have hfits : g (w.drop (f w)) = 0 ∨ LexClass.both f g w ≤ n := by
    split at hn <;> simp_all
  have hrest : g ((w.take n).drop (f (w.take n))) = g (w.drop (f w)) := by
    rw [hf.cut, drop_take]
    unfold LexClass.both at hfits
    rcases Nat.le_total (f w) n with hle | hle
    · rw [min_eq_right hle]
      exact hg.cut _ _ (by omega)
    · -- The second lexeme is beyond the cut, so there is none.
      have hnil : g [] = 0 := Nat.le_zero.1 (hg.le [])
      rw [min_eq_left hle, Nat.sub_self, take_zero]
      omega
  rw [hrest]
  split
  · rfl
  · next hne => exact hboth.cut w n (hfits.resolve_left hne)

lemma guarded (hf : Runs P f) (hg : Scans P g) : Scans P (guarded f g) := by
  refine hg.restrict (fun w => ite_eq_or_eq ..) fun w n hn => ?_
  have hcut := hf.cut w n
  unfold LexClass.guarded at hn ⊢
  by_cases hzero : f w = 0
  · simp [hcut, hzero]
  · rw [if_neg hzero] at hn ⊢
    have hle := hg.le (w.take n)
    rw [hg.cut w n hn] at hle ⊢
    split
    · rw [length_take] at hle
      omega
    · rfl

lemma seq (hf : Runs P f) (hg : Scans P g) : Scans P (seq f g) := .guarded hf (.lead hf hg)

lemma cont (hf : Runs P f) (hg : Scans P g) : Scans P (cont f g) := .guarded hf (hf.scans.both hg)

lemma weaken (h : Scans P f) : Scans (fun _ => True) f := ⟨h.le, h.cut, fun _ _ _ => trivial⟩

lemma eq_of_le (h : Scans P f) (hle : f (w ++ r) ≤ w.length) : f (w ++ r) = f w := by
  have hcut := h.cut (w ++ r) w.length hle
  rw [← hcut, take_left]

end Scans

/-! ## What closes a lexeme -/

/-- A text that goes on with nothing that belongs to a lexeme: a blank, a closing bracket or a
colon, or the end. -/
def Closed (r : List Char) : Prop := ∀ c ∈ r.head?, c ∈ [' ', ')', ']', '\x7d', ':']

lemma of_mem_closing : ∀ c ∈ [' ', ')', ']', '\x7d', ':'], Text.isDigit c = false ∧
    isNameHead c = false ∧ isKeyHead c = false ∧ isNameTail c = false ∧ isSymbolTail c = false ∧
    c ∉ ['.', 'e', 'E', '+', '-'] ∧ c ∉ "true".toList ∧ c ∉ "false".toList ∧ c ∉ "null".toList :=
  forall_iff_forall_mem.1 (by decide +kernel)

def IsOpen (c : Char) : Prop := c ∉ [' ', ')', ']', '\x7d', ':']

lemma Scans.append (h : Scans IsOpen f) (hr : Closed r) (w : List Char) : f (w ++ r) = f w := by
  refine h.eq_of_le (Nat.le_of_not_lt fun hlt => ?_)
  have hle := h.le (w ++ r)
  cases r with
  | nil => simp at hle hlt; omega
  | cons c r =>
    obtain ⟨n, hn⟩ := Nat.exists_eq_add_of_lt hlt
    have hmem : c ∈ (w ++ c :: r).take (f (w ++ c :: r)) := by
      rw [hn, Nat.add_assoc, take_length_add_append]
      simp
    exact h.chars _ c hmem (hr c rfl)

lemma isOpen_of (h : isNameTail c ∨ isSymbolTail c ∨ c ∈ ['.', 'e', 'E', '+', '-']) : IsOpen c := by
  intro hmem
  obtain ⟨-, -, -, hname, hsymbol, hmark, -⟩ := of_mem_closing c hmem
  simp_all

lemma isOpen_digit (hc : Text.isDigit c) : IsOpen c :=
  isOpen_of (.inl (by simp [isNameTail, isKeyHead, hc]))

/-! ## Numbers -/

lemma minus_eq (w : List Char) : minus w = (head (· == '-') w, w.drop (head (· == '-') w)) := by
  cases w with
  | nil => rfl
  | cons c w => by_cases hc : c = '-' <;> simp [minus, head, hc]

lemma length_minus (w : List Char) : (minus w).1 + (minus w).2.length = w.length := by
  fun_cases minus w with
  | case1 r => simp [Nat.add_comm]
  | case2 => simp

lemma runs_sign (hp : ∀ c, p c → c ∈ ['.', 'e', 'E', '+', '-']) : Runs IsOpen (head p) :=
  runs_head fun c hc => isOpen_of (.inr (.inr (hp c hc)))

lemma runs_digits : Runs IsOpen (run Text.isDigit) := runs_run fun _ => isOpen_digit

lemma scans_int : Scans IsOpen intLength := by
  have heq : intLength = lead (head (· == '-')) (run Text.isDigit) := by
    funext w
    rw [intLength, minus_eq]
    rfl
  exact heq ▸ .lead (runs_sign (by simp)) runs_digits.scans

def sign : List Char → Nat × List Char
  | '+' :: r => (1, r)
  | r => minus r

lemma sign_eq (w : List Char) : sign w = (head (fun c => c == '+' || c == '-') w,
    w.drop (head (fun c => c == '+' || c == '-') w)) := by
  cases w with
  | nil => rfl
  | cons c w => by_cases hc : c = '+' <;> by_cases hc' :
      c = '-' <;> simp [sign, minus, head, hc, hc']

lemma exponentLength_cons (c : Char) (r : List Char) : exponentLength (c :: r) =
    if c = 'e' ∨ c = 'E' then
      if run Text.isDigit (sign r).2 = 0 then 0 else 1 + (sign r).1 + run Text.isDigit (sign r).2
    else 0 := rfl

lemma scans_exponent : Scans IsOpen exponentLength := by
  have heq : exponentLength = seq (head fun c => c == 'e' || c == 'E')
      (lead (head fun c => c == '+' || c == '-') (run Text.isDigit)) := by
    funext w
    cases w with
    | nil => rfl
    | cons c w =>
      rw [seq_head_cons, exponentLength_cons, sign_eq, lead, both]
      grind
  exact heq ▸ .seq (runs_sign (by simp)) (.lead (runs_sign (by simp)) runs_digits.scans)

lemma realLength_eq (w : List Char) : realLength w =
    match (minus w).2.drop (run Text.isDigit (minus w).2) with
    | '.' :: r =>
      if run Text.isDigit (minus w).2 = 0 ∨ run Text.isDigit r = 0 then 0
      else (minus w).1 + run Text.isDigit (minus w).2 + 1 + run Text.isDigit r +
        exponentLength (r.drop (run Text.isDigit r))
    | _ => 0 := rfl

lemma scans_real : Scans IsOpen realLength := by
  have heq : realLength = lead (head (· == '-')) (seq (run Text.isDigit) (seq (head (· == '.'))
      (cont (run Text.isDigit) exponentLength))) := by
    funext w
    rw [realLength_eq, minus_eq, lead, both]
    dsimp only
    generalize head (· == '-') w = n
    generalize w.drop n = w
    rw [seq, guarded, lead, both]
    generalize run Text.isDigit w = m
    generalize w.drop m = w
    cases w with
    | nil => simp [seq, guarded, head]
    | cons c w =>
      rw [seq_head_cons, cont, guarded, both]
      by_cases hc : c = '.'
      · subst hc
        grind
      · simp [hc]
  exact heq ▸ .lead (runs_sign (by simp))
    (.seq runs_digits (.seq (runs_sign (by simp)) (.cont runs_digits scans_exponent)))

/-! ## Names -/

lemma markedLength_eq (mark : Char) :
    markedLength mark = seq (head (· == mark)) (cont (head isNameHead) (run isNameTail)) := by
  funext w
  match w with
  | [] => rfl
  | [c] => simp [markedLength, seq_head_cons, cont, guarded, head]
  | c :: h :: w =>
    rw [seq_head_cons, cont_head_cons, markedLength]
    grind

lemma scans_named : Scans IsOpen (cont (head isNameHead) (run isNameTail)) :=
  .cont (runs_head fun c hc => isOpen_of (.inl (by simp [isNameTail, isKeyHead, hc])))
    (runs_run fun c hc => isOpen_of (.inl hc)).scans

lemma scans_marked (mark : Char) : Scans (fun _ => True) (markedLength mark) :=
  markedLength_eq mark ▸ .seq (runs_head (by simp)) scans_named.weaken

lemma keysLength_cons (hc : c ≠ '.') (w : List Char) :
    keysLength (c :: w) = if isNameTail c then 1 + keysLength w else 0 := by
  rw [keysLength]
  simp [hc]

lemma ne_dot_of_isNameTail (hc : isNameTail c) : c ≠ '.' := by
  rintro rfl
  exact absurd hc (by decide)

lemma scans_keys : Scans IsOpen keysLength where
  le w := by fun_induction keysLength w <;> grind
  cut w n hn := by
    fun_induction keysLength w generalizing n with
    | case1 h w hh ih =>
      obtain ⟨n, rfl⟩ := Nat.exists_eq_add_of_le' (Nat.le_of_add_right_le hn)
      simp [keysLength, hh, ih n (by omega)]
    | case2 h w hh => rcases n with _ | _ | n <;> simp [keysLength, hh] ; decide
    | case3 c w _ hc ih =>
      obtain ⟨n, rfl⟩ := Nat.exists_eq_add_of_le' (Nat.le_of_add_right_le hn)
      simp [keysLength_cons (ne_dot_of_isNameTail hc), hc, ih n (by omega)]
    | case4 c w hdot hc =>
      rcases n with _ | n
      · rfl
      · by_cases hc' : c = '.'
        · cases w with
          | nil => simp [keysLength, hc]
          | cons h w => exact absurd rfl (hdot h w hc')
        · simp [keysLength_cons hc', hc]
    | case5 => simp [keysLength]
  chars w c hc := by
    fun_induction keysLength w with
    | case1 h w hh ih =>
      rw [Nat.add_comm, take_succ_cons, take_succ_cons, mem_cons, mem_cons] at hc
      rcases hc with rfl | rfl | hc
      · exact isOpen_of (by simp)
      · exact isOpen_of (.inl (by simp [isNameTail, hh]))
      · exact ih hc
    | case3 d w _ hd ih =>
      rw [Nat.add_comm, take_succ_cons, mem_cons] at hc
      rcases hc with rfl | hc
      · exact isOpen_of (.inl hd)
      · exact ih hc
    | case2 | case4 | case5 => simp at hc

lemma pathLength_eq : pathLength = seq (head (· == '.')) (cont (head isKeyHead) keysLength) := by
  funext w
  match w with
  | [] => rfl
  | [c] => by_cases hc : c = '.' <;> simp [pathLength, seq_head_cons, cont, guarded, head]
  | c :: h :: w =>
    rw [seq_head_cons, cont_head_cons]
    by_cases hc : c = '.'
    · subst hc
      rw [pathLength]
      grind
    · simp [pathLength, hc]

lemma scans_path : Scans IsOpen pathLength := by
  have hkey : Runs IsOpen (head isKeyHead) :=
    runs_head fun c hc => isOpen_of (.inl (by simp [isNameTail, hc]))
  exact pathLength_eq ▸ .seq (runs_sign (by simp)) (.cont hkey scans_keys)

/-! ## All classes -/

section

variable (r : List Char)

@[simp] lemma length_blank : blank.length r = run isBlank r := rfl

@[simp] lemma length_comment : comment.length (';' :: r) = 1 + run (· != '\n') r := rfl

@[simp] lemma length_opening (b : Bracket) (c : Char) :
    (opening b).length (c :: r) = if c = b.openChar then 1 else 0 := rfl

@[simp] lemma length_closing (b : Bracket) (c : Char) :
    (closing b).length (c :: r) = if c = b.closeChar then 1 else 0 := rfl

@[simp] lemma length_colon : colon.length (':' :: r) = 1 := rfl

@[simp] lemma length_plus : plus.length ('+' :: r) = 1 := rfl

@[simp] lemma length_real : real.length r = realLength r := rfl

@[simp] lemma length_int : int.length r = intLength r := rfl

@[simp] lemma length_str : str.length ('"' :: r) = if (strReach r).2 then 1 + (strReach r).1
    else 0 := rfl

@[simp] lemma length_keyword (word : String) (t : Token) :
    (keyword word t).length r = if word.toList.isPrefixOf r then word.toList.length else 0 := rfl

@[simp] lemma length_tag : tag.length r = markedLength ':' r := rfl

@[simp] lemma length_decl : decl.length r = markedLength '+' r := rfl

@[simp] lemma length_path : path.length r = pathLength r := rfl

@[simp] lemma length_symbol_nil : symbol.length [] = 0 := rfl

@[simp] lemma length_symbol (c : Char) :
    symbol.length (c :: r) = if isSymbolHead c then 1 + run isSymbolTail r else 0 := rfl

end

def admits : LexClass → Char → Bool
  | blank, c => isBlank c
  | comment, c => c == ';'
  | opening b, c => c == b.openChar
  | closing b, c => c == b.closeChar
  | colon, c | tag, c => c == ':'
  | plus, c | decl, c => c == '+'
  | real, c | int, c => c == '-' || Text.isDigit c
  | str, c => c == '"'
  | keyword word _, c => word.toList.head? == some c
  | path, c => c == '.'
  | symbol, c => isSymbolHead c

lemma run_minus_of_head (hc : ¬(c = '-' ∨ Text.isDigit c)) (r : List Char) :
    run Text.isDigit (minus (c :: r)).2 = 0 := by
  rw [not_or] at hc
  simp [minus, run, hc]

lemma length_of_not_admits (h : k.admits c = false) (r : List Char) : k.length (c :: r) = 0 := by
  cases k with
  | blank => simp_all [admits, run]
  | comment | opening | closing | colon | plus | str | symbol => simp_all [admits, length]
  | tag | decl => cases r <;> simp_all [admits, markedLength]
  | path => cases r <;> simp_all [admits, pathLength]
  | real =>
    have hrun := run_minus_of_head (c := c) (by simpa [admits] using h) r
    rw [length_real, realLength_eq, hrun]
    split <;> simp
  | int =>
    have hrun := run_minus_of_head (c := c) (by simpa [admits] using h) r
    simp [intLength, hrun]
  | keyword word t =>
    have hword : word.toList.isPrefixOf (c :: r) → word.toList.length = 0 := by
      intro hprefix
      cases hw : word.toList with
      | nil => rfl
      | cons d w => simp_all [admits]
    by_cases hprefix : word.toList.isPrefixOf (c :: r) <;> simp_all

/-- A class whose lexemes all start with the same character. -/
lemma length_cons_of_admits {d : Char} (hk : ∀ c, k.admits c = (c == d)) (c : Char)
    (r : List Char) : k.length (c :: r) = if c = d then k.length (d :: r) else 0 := by
  by_cases hc : c = d
  · simp [hc]
  · rw [length_of_not_admits (by simp [hk, hc]), if_neg hc]

lemma keyword_mem_all {word : String} {t : Token} (h : keyword word t ∈ all) :
    word ∈ ["true", "false", "null"] := by
  simp only [all, mem_cons] at h
  grind

lemma isPrefixOf_append (h : ∀ c ∈ r.head?, c ∉ word) (w : List Char) :
    word.isPrefixOf (w ++ r) = word.isPrefixOf w := by
  induction word generalizing w with
  | nil => simp
  | cons d word ih =>
    cases w with
    | cons e w => simp [isPrefixOf, ih fun c hc => not_mem_of_not_mem_cons (h c hc)]
    | nil =>
      cases r with
      | nil => rfl
      | cons c r =>
        have hd : d ≠ c := fun hd => h c (by simp) (by simp [hd])
        simp [isPrefixOf, hd]

lemma scans_keyword (word : String) (t : Token) :
    Scans (fun _ => True) (keyword word t).length where
  le w := by
    rw [length_keyword]
    split
    · next h => exact ( isPrefixOf_iff_prefix.1 h).length_le
    · exact Nat.zero_le _
  cut w n hn := by
    simp only [length_keyword, isPrefixOf_iff_prefix] at hn ⊢
    split at hn
    · next h => rw [if_pos h, if_pos (prefix_take_iff.2 ⟨h, hn⟩)]
    · next h => rw [if_neg h, if_neg fun htake => h (htake.trans ( take_prefix n w))]
  chars _ _ _ := trivial

lemma strReach_le (w : List Char) : (strReach w).1 ≤ w.length := by
  fun_induction strReach w with
  | case1 | case2 | case3 | case4 => simp
  | case5 | case6 => grind

lemma scans_str : Scans (fun _ => True) str.length where
  le w := by
    cases w with
    | nil => rfl
    | cons c w =>
      have hle := strReach_le w
      rw [length_cons_of_admits (fun _ => rfl), length_str, List.length_cons]
      split_ifs <;> omega
  cut w n hn := by
    rcases w with _ | ⟨c, w⟩
    · simp
    rcases n with _ | n
    · exact (Nat.le_zero.1 hn).symm
    by_cases hc : c = '"'
    · subst hc
      rw [take_succ_cons, length_str, length_str] at *
      cases hclosed : (strReach w).2 with
      | true =>
        obtain ⟨b, q, hb, rfl⟩ := exists_body hclosed
        simp only [strReach_body hb, if_true] at hn
        obtain ⟨m, rfl⟩ : ∃ m, n = b.length + (m + 1) := ⟨n - b.length - 1, by omega⟩
        simp [take_length_add_append, strReach_body hb]
      | false =>
        have htake : (strReach (w.take n)).2 = false := by
          by_contra hcut
          obtain ⟨b, q, hb, heq⟩ := exists_body (by simpa using hcut)
          have hw : w = b ++ '"' :: (q ++ w.drop n) := by
            simpa [heq] using (take_append_drop n w).symm
          rw [hw, strReach_body hb] at hclosed
          cases hclosed
        simp [htake]
    · rw [take_succ_cons, length_of_not_admits (by simp [admits, hc]),
        length_of_not_admits (by simp [admits, hc])]
  chars _ _ _ := trivial

lemma scans_of_cons (p q : Char → Bool) (hnil : k.length [] = 0)
    (hcons : ∀ c r, k.length (c :: r) = if p c then 1 + run q r else 0) :
    Scans (fun _ => True) k.length := by
  have heq : k.length = cont (head p) (run q) := by
    funext w
    cases w with
    | nil => exact hnil
    | cons c w => rw [hcons, cont_head_cons]
  exact heq ▸ .cont (runs_head (by simp)) (runs_run (by simp)).scans

lemma scans_of_char (d : Char) (q : Char → Bool) (hk : ∀ c, k.admits c = (c == d))
    (hnil : k.length [] = 0)
    (hcons : ∀ r, k.length (d :: r) = 1 + run q r) : Scans (fun _ => True) k.length :=
  scans_of_cons (· == d) q hnil fun c r => by simp [length_cons_of_admits hk c, hcons]

lemma scans_length (k : LexClass) : Scans (fun _ => True) k.length := by
  cases k with
  | blank => exact (runs_run (by simp)).scans
  | comment => exact scans_of_char ';' (· != '\n') (fun _ => rfl) rfl fun _ => rfl
  | opening b => exact
      scans_of_char b.openChar (fun _ => false) (fun _ => rfl) rfl fun r => by cases r <;>
      simp [run]
  | closing b => exact
      scans_of_char b.closeChar (fun _ => false) (fun _ => rfl) rfl fun r => by cases r <;>
      simp [run]
  | colon => exact scans_of_char ':' (fun _ => false) (fun _ => rfl) rfl fun r => by cases r <;> rfl
  | plus => exact scans_of_char '+' (fun _ => false) (fun _ => rfl) rfl fun r => by cases r <;> rfl
  | real => exact scans_real.weaken
  | int => exact scans_int.weaken
  | str => exact scans_str
  | keyword word t => exact scans_keyword word t
  | tag => exact scans_marked ':'
  | decl => exact scans_marked '+'
  | path => exact scans_path.weaken
  | symbol => exact scans_of_cons isSymbolHead isSymbolTail rfl fun c r => length_symbol r c

lemma length_le (k : LexClass) (w : List Char) : k.length w ≤ w.length := (scans_length k).le w

/-- The classes whose lexemes end where a text is closed: no blanks, comments or strings start it.
-/
def Solid (w : List Char) : Prop := ∃ c w', w = c :: w' ∧ isBlank c = false ∧ c ≠ ';' ∧ c ≠ '"'

lemma length_append (hk : k ∈ all) (hw : Solid w) (hr : Closed r) :
    k.length (w ++ r) = k.length w := by
  obtain ⟨c, w, rfl, hblank, hcomment, hquote⟩ := hw
  cases k with
  | blank => simp [run, hblank]
  | comment => simp [length_cons_of_admits (k := comment) (fun _ => rfl) c, hcomment]
  | opening b => rfl
  | closing b => rfl
  | colon => simp [length_cons_of_admits (k := colon) (fun _ => rfl) c]
  | plus => simp [length_cons_of_admits (k := plus) (fun _ => rfl) c]
  | real => exact scans_real.append hr _
  | int => exact scans_int.append hr _
  | str => simp [length_cons_of_admits (k := str) (fun _ => rfl) c, hquote]
  | keyword word t =>
    have hprefix : word.toList.isPrefixOf (c :: w ++ r) = word.toList.isPrefixOf (c :: w) := by
      refine isPrefixOf_append (fun d hd => ?_) _
      have hd := of_mem_closing d (hr d hd)
      have hword := keyword_mem_all hk
      simp only [mem_cons, not_mem_nil, or_false] at hword
      rcases hword with rfl | rfl | rfl
      · exact hd.2.2.2.2.2.2.1
      · exact hd.2.2.2.2.2.2.2.1
      · exact hd.2.2.2.2.2.2.2.2
    simp only [length_keyword, hprefix]
  | tag | decl => simp only [length_tag, length_decl, markedLength_eq, cons_append, seq_head_cons,
      scans_named.append hr]
  | path => exact scans_path.append hr _
  | symbol =>
    have hrun : Scans IsOpen (run isSymbolTail) :=
      (runs_run fun c hc => isOpen_of (.inr (.inl hc))).scans
    simp [hrun.append hr]

end Resolvent.LexClass
