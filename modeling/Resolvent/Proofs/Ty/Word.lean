import Resolvent.Element.Reader
import Resolvent.Proofs.Token.Lexing
import Resolvent.Proofs.Ty.RoundTrip

/-!
# Types written as one word

A symbol of the source is read as a type without parentheses: a kind, a variable, a reference, a
schema, or containers around one of these.
-/

namespace Resolvent

open LexClass List

variable {s : String}

namespace LexClass

variable {c : Char} {w : List Char}

/-! ## Characters of symbols -/

lemma toNat_of_isSymbolTail (h : isSymbolTail c) : c.toNat < 128 := by
  have hlist : ∀ d ∈ '_' :: ("-*/<>=!&^~$@'".toList ++ "+|.?".toList), d.toNat < 128 :=
    forall_iff_forall_mem.1 (by decide +kernel)
  have hle {d : Char} (hd : c ≤ d) (hlt : d.toNat < 128) : c.toNat < 128 :=
    Nat.lt_of_le_of_lt hd hlt
  simp only [isSymbolTail, isSymbolHead, isNameHead, isLetter, Text.isDigit, Bool.or_eq_true,
    Bool.and_eq_true, decide_eq_true_eq, contains_iff_mem, beq_iff_eq] at h
  rcases h with ((((h | h) | rfl) | h) | h) | h
  · exact hle h.2 (by decide)
  · exact hle h.2 (by decide)
  · decide
  · exact hlist c (mem_cons_of_mem _ (mem_append_left _ h))
  · exact hle h.2 (by decide)
  · exact hlist c (mem_cons_of_mem _ (mem_append_right _ h))

lemma forall_symbolTail {p : Char → Prop}
    (h : ∀ n < 128, isSymbolTail (Char.ofNat n) → p (Char.ofNat n))
    (hc : isSymbolTail c) : p c := by
  have hp := h c.toNat (toNat_of_isSymbolTail hc)
  rw [Char.ofNat_toNat] at hp
  exact hp hc

lemma isDelimiter_symbolTail (hc : isSymbolTail c) : c ≠ '|' → Ty.isDelimiter c = false :=
  forall_symbolTail (p := fun c => c ≠ '|' → Ty.isDelimiter c = false) (by decide) hc

lemma isSymbolTail_of_isSymbolHead (hc : isSymbolHead c) : isSymbolTail c := by
  simp [isSymbolTail, hc]

lemma admits_symbolHead (hc : isSymbolHead c) (hsign : c ≠ '-') :
    isBlank c = false ∧ Text.isDigit c = false ∧ c ∉ ";()[]\x7b\x7d:+\".".toList := by
  refine forall_symbolTail (p := fun c => isSymbolHead c ∧ c ≠ '-' →
    isBlank c = false ∧ Text.isDigit c = false ∧ c ∉ ";()[]\x7b\x7d:+\".".toList)
    (by decide) ?_ ⟨hc, hsign⟩
  exact isSymbolTail_of_isSymbolHead hc

lemma longest_symbol (hc : isSymbolHead c) (hsign : c ≠ '-') (hw : ∀ d ∈ w, isSymbolTail d)
    (hkey : ∀ word ∈ ["true", "false", "null"], word.toList.isPrefixOf (c :: w) = false) :
    longest (c :: w) = some (symbol, w.length + 1) := by
  obtain ⟨hblank, hdigit, hother⟩ := admits_symbolHead hc hsign
  have hrun : run isSymbolTail w = w.length := by rw [run, takeWhile_eq_self_iff.2 hw]
  refine longest_eq_some_iff.2 ⟨all.dropLast, [], rfl, by simp [hc, hrun, Nat.add_comm], by omega,
    ?_, by simp⟩
  intro j hj
  have hzero : j.length (c :: w) = 0 := by
    cases j with
    | keyword word t => simp [hkey word (keyword_mem_all (dropLast_subset _ hj))]
    | symbol => simp [all] at hj
    | opening b | closing b =>
      cases b <;> simp_all [Bracket.openChar, Bracket.closeChar]
    | _ =>
      refine length_of_not_admits ?_ w
      simp_all [admits]
  omega

lemma legible_symbol (hs : s.toList = c :: w) (h : longest (c :: w) = some (symbol, w.length + 1)) :
    (Token.symbol s).Legible := by
  refine firstLexeme_eq_token_iff.2 ⟨symbol, ?_, rfl, ?_⟩
  · simpa [hs] using h
  · rw [take_length, token?, Token.text_symbol, String.ofList_toList]

end LexClass

namespace Ty

variable {t : Ty} {o : Bool} {cs : List Char}

/-! ## Types of one word -/

/-- The characters of a word inside a symbol. -/
structure Spelled (cs : List Char) : Prop where
  ne_nil : cs ≠ []
  symbol : ∀ c ∈ cs, isSymbolTail c ∧ c ≠ '|'

lemma Spelled.isWord (h : Spelled cs) : IsWord cs :=
  ⟨h.ne_nil, fun c hc => isDelimiter_symbolTail (h.symbol c hc).1 (h.symbol c hc).2⟩

inductive OneWord : Ty → Prop
  | kind {name : String} {k : Kind} (o : Bool) : (name, k) ∈ Kind.named → k ≠ .alt →
      OneWord ((plain k).optIf o)
  | var {id : Nat} (o : Bool) : 0 < id → id ≤ Kind.maxSlot → OneWord ((var id []).optIf o)
  | self {dist : Nat} (o : Bool) : 0 < dist → dist ≤ Kind.maxSlot → OneWord ((self dist).optIf o)
  | ref {name : String} (o : Bool) : Spelled name.toList → Text.natural32? name.toList = none →
    (o = false → name.toList.getLast? ≠ some '?') → OneWord ((ref name).optIf o)
  | sch {name : String} (o : Bool) : Spelled name.toList →
      (o = false → name.toList.getLast? ≠ some '?') → OneWord ((sch name).optIf o)
  | cont {name : String} {k : Kind} {elem : Ty} (o : Bool) : (name, k) ∈ Kind.named → k.isElemCont →
      OneWord elem → (around k elem).kind.depth ≤ Kind.maxDepth → OneWord ((around k elem).optIf o)

section

variable {src : String} {one : Reader Ty}

/-- What a reader gives on a symbol: a type of one word, with a part of the symbol left over. -/
def GivesWord (one : Reader Ty) : Prop :=
  ∀ cs : List Char, (∀ c ∈ cs, isSymbolTail c) → Gives (one cs) fun p => OneWord p.1 ∧
    ∀ c ∈ p.2, isSymbolTail c

lemma natural32?_le {n : Nat} (h : Text.natural32? cs = some n) : n ≤ Kind.maxSlot := by
  simp only [Text.natural32?, Text.natural?, Option.filter_eq_some_iff] at h
  exact of_decide_eq_true h.2

lemma givesWord_readBare (hone : GivesWord one) {name rest : List Char}
    (hname : ∀ c ∈ name, isSymbolTail c ∧ c ≠ '|') (hlast : o = false → name.getLast? ≠ some '?')
    (hrest : ∀ c ∈ rest, isSymbolTail c) :
    Gives (readBare src one name rest) fun p => OneWord (p.1.optIf o) ∧
    ∀ c ∈ p.2, isSymbolTail c := by
  have htarget {m : Char} {target : List Char} (hm : name = m :: target)
    (hne : target.isEmpty = false) : Spelled (String.ofList target).toList ∧
      (o = false → (String.ofList target).toList.getLast? ≠ some '?') := by
    have hne : target ≠ [] := by simpa using hne
    rw [String.toList_ofList]
    refine ⟨⟨hne, fun c hc => hname c (by simp [hm, hc])⟩, fun ho => ?_⟩
    have := hlast ho
    rwa [hm, getLast?_cons_of_ne_nil hne] at this
  unfold readBare
  split
  · exact .bind (gives_varNumber _) fun id hid => .pure ⟨.var o hid.1 hid.2, hrest⟩
  · next target =>
    split
    · exact .error
    · next dist hzero hnumber =>
      have hpos : 0 < dist := Nat.pos_of_ne_zero fun h => hzero (by rw [h])
      exact .pure ⟨.self o hpos (natural32?_le hnumber), hrest⟩
    · next hnumber =>
      split
      · exact .error
      · next hne =>
        obtain ⟨hword, hmark⟩ := htarget rfl (by simpa using hne)
        exact .pure ⟨.ref o hword (by rwa [String.toList_ofList]) hmark, hrest⟩
  · split
    · exact .error
    · next hne =>
      obtain ⟨hword, hmark⟩ := htarget rfl (by simpa using hne)
      exact .pure ⟨.sch o hword hmark, hrest⟩
  · split
    · exact .error
    · next k hk =>
      have hk := mem_of_ofName? hk
      split
      · exact .error
      · next hne =>
        split
        · next rest =>
          split
          · next hcont =>
            refine .bind (hone rest fun c hc => hrest c (by simp [hc])) fun p hp =>
              .bind (gives_cont k p.1) fun t ht => ?_
            obtain ⟨rfl, hdepth⟩ := ht
            exact .pure ⟨.cont o hk hcont hp.1 hdepth, hp.2⟩
          · exact .error
        · exact .pure ⟨.kind o hk hne, hrest⟩

lemma givesWord_readWord (hone : GivesWord one) : GivesWord (readWord src one) := by
  intro cs hcs
  rcases hword : word cs with ⟨w, rest⟩
  rcases hsplit : splitOpt w with ⟨name, o⟩
  have happend : w ++ rest = cs := by
    rw [word, span_eq_takeWhile_dropWhile] at hword
    obtain ⟨rfl, rfl⟩ := Prod.mk.inj hword
    exact takeWhile_append_dropWhile
  unfold readWord
  simp only [hword, hsplit]
  obtain ⟨hw, hlast⟩ := word_eq_of_splitOpt hsplit
  split
  · exact .error
  · refine .bind (givesWord_readBare hone (fun c hc => ⟨?_, ?_⟩) hlast fun c hc => ?_) fun p hp =>
      .pure hp
    · exact hcs c (by simp [← happend, hw, hc])
    · rintro rfl
      have hdelimiter := plain_of_word hword '|' (by simp [hw, hc])
      exact absurd hdelimiter (by decide)
    · exact hcs c (by simp [← happend, hc])

lemma givesWord_readType (fuel : Nat) : GivesWord (readType src fuel) := by
  induction fuel with
  | zero => exact fun _ _ => .error
  | succ fuel ih =>
    intro cs hcs
    cases cs with
    | nil => exact .error
    | cons c cs =>
      have hc : Text.isBlank c = false ∧ c ≠ '(' := by
        by_cases hbar : c = '|'
        · subst hbar
          decide
        · have hdelimiter := isDelimiter_symbolTail (hcs c (by simp)) hbar
          simp only [isDelimiter, Bool.or_eq_false_iff, beq_eq_false_iff_ne] at hdelimiter
          exact ⟨hdelimiter.1.1.1.1, hdelimiter.1.1.1.2⟩
      have hskip : skipBlanks (c :: cs) = c :: cs := skipBlanks_cons hc.1
      unfold readType
      rw [hskip]
      split
      · exact .error
      · next heq => exact absurd (cons.inj heq).1 hc.2
      · exact givesWord_readWord ih (c :: cs) hcs

lemma oneWord_of_parse (hsrc : ∀ c ∈ src.toList, isSymbolTail c) (h : parse src = .ok t) :
    OneWord t := by
  have hgives : Gives (parse src) OneWord := by
    refine .bind (givesWord_readType _ _ hsrc) fun p hp => ?_
    dsimp only
    split
    · exact .pure hp.1
    · exact .error
  exact hgives t h

end

/-! ## Reading back -/

lemma text_self (dist : Nat) (o : Bool) :
    ((self dist).optIf o).text = "@" ++ dist.repr ++ markText o := by cases o <;> rfl

lemma ReadsBack.self {dist : Nat} (hpos : 0 < dist) (hle : dist ≤ Kind.maxSlot) :
    ReadsBack ((Ty.self dist).optIf o) := by
  have hnumber : Text.natural32? dist.repr.toList = some dist := Text.natural?_repr hle
  have hnomark : dist.repr.toList.getLast? ≠ some '?' := fun hlast =>
    absurd (Text.isDigit_of_mem_repr (mem_of_getLast? hlast)) (by decide)
  obtain ⟨hword, hlast⟩ :=
    isWord_marked (show isDelimiter '@' = false by decide) (isWord_repr dist) fun _ :
      o = false => hnomark
  refine of_word [] ?_ hword (by simp) hlast (.inl rfl) ?_
  · rw [text_self]
    simp
  · intro src fuel rest _ _
    obtain ⟨m, rfl⟩ : ∃ m, dist = m + 1 := ⟨dist - 1, by omega⟩
    rw [readBare, hnumber]
    rfl

lemma OneWord.readsBack (h : OneWord t) : ReadsBack t := by
  induction h with
  | kind o hk hne => exact .kind hk hne
  | var o hpos hle => exact .var hpos hle nofun
  | self o hpos hle => exact .self hpos hle
  | ref o hname hnumber hlast => exact .ref hname.isWord hnumber hlast
  | sch o hname hlast => exact .sch hname.isWord hlast
  | cont o hk hcont _ hdepth ih => exact .cont hk hcont hdepth ih

lemma ReadsBack.parse_eq (h : ReadsBack t) : parse t.text = .ok t := by
  have hread := h.read t.text (t.text.toList.length + 1) [] (by omega) (by simp [Closed])
  rw [append_nil] at hread
  unfold parse
  dsimp only
  rw [hread]
  rfl

/-! ## Written forms -/

structure IsSymbol (s : String) : Prop where
  isTypeWord : Form.isTypeWord s
  chars : ∀ c ∈ s.toList, isSymbolTail c
  legible : (Token.symbol s).Legible

/-- Beginnings of symbols that are neither numbers nor keywords, whatever follows. -/
def StartsSymbol (n : List Char) : Prop :=
  n ≠ [] ∧ (∀ c ∈ n.head?, isSymbolHead c ∧ c ≠ '-') ∧ (∀ c ∈ n, isSymbolTail c) ∧
    ∀ word ∈ ["true", "false", "null"], word.toList.isPrefixOf n = false ∧
    n.isPrefixOf word.toList = false

instance (n : List Char) : Decidable (StartsSymbol n) :=
  decidable_of_iff (n ≠ [] ∧ (n.head?.all fun c => isSymbolHead c && c != '-') ∧
    n.all isSymbolTail ∧ ∀ word ∈ ["true", "false", "null"], word.toList.isPrefixOf n = false ∧
    n.isPrefixOf word.toList = false)
    (by simp only [StartsSymbol, Option.all_eq_true, List.all_eq_true, Bool.and_eq_true, bne_iff_ne,
    Option.mem_def])

lemma startsSymbol_named : ∀ p ∈ Kind.named, StartsSymbol p.1.toList := by decide +kernel

lemma startsSymbol_mark : ∀ m ∈ ['\'', '@', '~'], StartsSymbol [m] :=
  forall_iff_forall_mem.1 (by decide +kernel)

lemma isPrefixOf_append_eq_false {word n : List Char} (h : word.isPrefixOf n = false)
    (h' : n.isPrefixOf word = false) (more : List Char) : word.isPrefixOf (n ++ more) = false := by
  rw [← Bool.not_eq_true, isPrefixOf_iff_prefix] at h h' ⊢
  intro hprefix
  exact ( prefix_or_prefix_of_prefix hprefix (prefix_append n more)).elim h h'

lemma isSymbol_of_starts {n more : List Char} (hn : StartsSymbol n) (hs : s.toList = n ++ more)
    (hmore : ∀ c ∈ more, isSymbolTail c) (hword : Form.isTypeWord s) : IsSymbol s := by
  obtain ⟨hne, hhead, hchars, hkey⟩ := hn
  have hall : ∀ c ∈ s.toList, isSymbolTail c := by
    rw [hs]
    exact forall_mem_append.2 ⟨hchars, hmore⟩
  obtain ⟨c, w, rfl⟩ := exists_cons_of_ne_nil hne
  obtain ⟨hc, hsign⟩ := hhead c (by simp)
  have hlongest := longest_symbol hc hsign (fun d hd => hall d (by simp_all)) fun word hmem =>
    isPrefixOf_append_eq_false (hkey word hmem).1 (hkey word hmem).2 more
  exact ⟨hword, hall, legible_symbol hs hlongest⟩

lemma isSymbol_of_mark {m : Char} {w : List Char} (hm : m ∈ ['\'', '@', '~'])
    (hs : s.toList = m :: w) (hw : ∀ c ∈ w, isSymbolTail c) : IsSymbol s := by
  refine isSymbol_of_starts (startsSymbol_mark m hm) hs hw ?_
  simp only [mem_cons, not_mem_nil, or_false] at hm
  simp [Form.isTypeWord, hs, hm, or_assoc]

lemma isTypeWord_named : ∀ p ∈ Kind.named, ∀ o, Form.isTypeWord (p.1 ++ markText o) := by decide

lemma isSymbolTail_repr {n : Nat} {c : Char} (hc : c ∈ n.repr.toList) : isSymbolTail c := by
  simp [isSymbolTail, Text.isDigit_of_mem_repr hc]

lemma isSymbolTail_markText {c : Char} (hc : c ∈ (markText o).toList) : isSymbolTail c := by
  cases o <;> simp_all [markText]
  decide

lemma OneWord.isSymbol (h : OneWord t) : IsSymbol t.text := by
  induction h with
  | kind o hk hne =>
    refine isSymbol_of_starts (startsSymbol_named _ hk)
      (by rw [text_kind _ hk hne, String.toList_append]) (fun c => isSymbolTail_markText) ?_
    rw [text_kind _ hk hne]
    exact isTypeWord_named _ hk o
  | @var id o hpos hle =>
    refine isSymbol_of_mark (m := '\'') (w := id.repr.toList ++ (markText o).toList) (by simp)
      (by simp [text_var]) ?_
    exact forall_mem_append.2 ⟨fun c => isSymbolTail_repr, fun c => isSymbolTail_markText⟩
  | @self dist o hpos hle =>
    refine isSymbol_of_mark (m := '@') (w := dist.repr.toList ++ (markText o).toList) (by simp)
      (by simp [text_self]) ?_
    exact forall_mem_append.2 ⟨fun c => isSymbolTail_repr, fun c => isSymbolTail_markText⟩
  | @ref name o hname hnumber hlast =>
    refine isSymbol_of_mark (m := '@') (w := name.toList ++ (markText o).toList) (by simp)
      (by simp [text_ref]) ?_
    exact forall_mem_append.2 ⟨fun c hc => (hname.symbol c hc).1, fun c => isSymbolTail_markText⟩
  | @sch name o hname hlast =>
    refine isSymbol_of_mark (m := '~') (w := name.toList ++ (markText o).toList) (by simp)
      (by simp [text_sch]) ?_
    exact forall_mem_append.2 ⟨fun c hc => (hname.symbol c hc).1, fun c => isSymbolTail_markText⟩
  | @cont name k elem o hk hcont _ hdepth ih =>
    have htext : ((around k elem).optIf o).text.toList = name.toList ++
      ((markText o).toList ++ '|' :: elem.text.toList) := by
      rw [text_cont hk hcont]
      simp
    refine isSymbol_of_starts (startsSymbol_named _ hk) htext ?_ (by simp [Form.isTypeWord, htext])
    exact forall_mem_append.2 ⟨fun c => isSymbolTail_markText,
      forall_mem_cons.2 ⟨by decide, ih.chars⟩⟩

end Ty

end Resolvent
