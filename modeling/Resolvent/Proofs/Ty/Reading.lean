import Resolvent.Proofs.Text.Numeral
import Resolvent.Proofs.Ty.Notation

/-!
# Reading the parts of a written type

What the readers make of words, lists and members as they are written, where `ReadsAll` says that
the types inside are read back.
-/

namespace Resolvent.Ty

open List Bool

variable {src name : String} {one : Reader Ty} {c : Char} {cs n rest rest' members : List Char}
  {o : Bool} {t : Ty} {fuel : Nat}
  {k : Kind} {acc : Members} {ps params : List Param} {consts : List (String × Int64)}

def markText (o : Bool) : String := if o then "?" else ""

def Closed (rest : List Char) : Prop := ∀ c ∈ rest.head?, c = ' ' ∨ c = ')'

def Opens (cs : List Char) : Prop := ∃ c r, cs = c :: r ∧ Text.isBlank c = false ∧ c ≠ ')' ∧
    c ≠ '+' ∧ c ≠ '"'

/-! ## Words -/

lemma isBlank_of_isDelimiter (h : isDelimiter c = false) : Text.isBlank c = false := by
  simp only [isDelimiter, or_eq_false_iff] at h
  exact h.1.1.1.1

lemma skipBlanks_cons (h : Text.isBlank c = false) : skipBlanks (c :: cs) = c :: cs := by
  simp [skipBlanks, h]

lemma skipBlanks_space (cs : List Char) : skipBlanks (' ' :: cs) = skipBlanks cs := rfl

lemma skipBlanks_idem (cs : List Char) : skipBlanks (skipBlanks cs) = skipBlanks cs := by
  induction cs with
  | nil => rfl
  | cons c cs ih =>
    by_cases hc : Text.isBlank c
    · simpa [skipBlanks, hc] using ih
    · simp [skipBlanks, hc]

lemma Closed.isDelimiter (h : Closed rest) : ∀ c ∈ rest.head?, isDelimiter c := by
  intro c hc
  rcases h c hc with rfl | rfl <;> decide

lemma word_append (hn : ∀ c ∈ n, isDelimiter c = false) (hrest : ∀ c ∈ rest.head?, isDelimiter c) :
    word (n ++ rest) = (n, rest) := by
  have hstop : rest.takeWhile (!isDelimiter ·) = [] ∧ rest.dropWhile (!isDelimiter ·) = rest := by
    cases rest with
    | nil => exact ⟨rfl, rfl⟩
    | cons c r => simp [hrest c (by simp)]
  have hall : ∀ c ∈ n, (!isDelimiter c) = true := fun c hc => by simp [hn c hc]
  rw [word, span_eq_takeWhile_dropWhile, takeWhile_append_of_pos hall, dropWhile_append_of_pos hall,
    hstop.1, hstop.2, append_nil]

lemma splitOpt_append (hlast : o = false → n.getLast? ≠ some '?') :
    splitOpt (n ++ (markText o).toList) = (n, o) := by
  cases o with
  | true => simp [splitOpt, markText]
  | false => simpa [splitOpt, markText] using hlast rfl

lemma isDelimiter_markText : ∀ c ∈ (markText o).toList, isDelimiter c = false := by
  have hmark : (markText o).toList.all fun c => !isDelimiter c := by cases o <;> decide
  simpa using hmark

lemma readType_word (hn : IsWord n) (hlast : o = false → n.getLast? ≠ some '?')
    (hrest : ∀ c ∈ rest.head?, isDelimiter c)
    (hbare : readBare src (readType src fuel) n rest = .ok (t, rest')) :
    readType src (fuel + 1) (n ++ (markText o).toList ++ rest) = .ok (t.optIf o, rest') := by
  have hplain : ∀ c ∈ n ++ (markText o).toList, isDelimiter c = false := by
    intro c hc
    exact (mem_append.1 hc).elim (hn.plain c) (isDelimiter_markText c)
  obtain ⟨c, r, rfl⟩ := exists_cons_of_ne_nil hn.ne_nil
  have hc := hn.plain c (by simp)
  have hskip : skipBlanks (c :: r ++ (markText o).toList ++ rest) =
    c :: r ++ (markText o).toList ++ rest := skipBlanks_cons (isBlank_of_isDelimiter hc)
  have hparen : c ≠ '(' := by
    rintro rfl
    cases hc
  have hword : readType src (fuel + 1) (c :: r ++ (markText o).toList ++ rest) =
      readWord src (readType src fuel) (c :: r ++ (markText o).toList ++ rest) := by
    rw [readType, hskip]
    split
    · next heq => cases heq
    · next heq => exact absurd (cons.inj heq).1 hparen
    · rfl
  rw [hword, readWord, word_append hplain hrest]
  simp only [splitOpt_append hlast, hbare]
  rfl

lemma readType_list (hn : IsWord n) (hlast : o = false → n.getLast? ≠ some '?')
    (hrest : ∀ c ∈ rest.head?, isDelimiter c)
    (htail : readTail src (readType src fuel) n rest = .ok (t, ')' :: rest')) :
    readType src (fuel + 1) ('(' :: (n ++ (markText o).toList ++ rest)) = .ok
    (t.optIf o, rest') := by
  have hplain : ∀ c ∈ n ++ (markText o).toList, isDelimiter c = false := by
    intro c hc
    exact (mem_append.1 hc).elim (hn.plain c) (isDelimiter_markText c)
  have hskip : skipBlanks (n ++ (markText o).toList ++ rest) =
    n ++ (markText o).toList ++ rest := by
    obtain ⟨c, r, rfl⟩ := exists_cons_of_ne_nil hn.ne_nil
    exact skipBlanks_cons (isBlank_of_isDelimiter (hn.plain c (by simp)))
  change readList src (readType src fuel) (n ++ (markText o).toList ++ rest) = _
  rw [readList, hskip, word_append hplain hrest]
  simp only [splitOpt_append hlast, htail]
  rfl

/-! ## Names of kinds -/

lemma ofName?_named : ∀ p ∈ Kind.named, Kind.ofName? p.1 = some p.2 := by decide

lemma isWord_named : ∀ p ∈ Kind.named, p.1.toList ≠ [] ∧
    (∀ c ∈ p.1.toList, isDelimiter c = false ∧ c ≠ '?') := by
  have hnamed : ∀ p ∈ Kind.named, p.1.toList ≠ [] ∧ p.1.toList.all fun c =>
    !isDelimiter c && c != '?' := by decide
  simpa only [List.all_eq_true, and_eq_true, not_eq_true', bne_iff_ne] using hnamed

lemma head_named : ∀ p ∈ Kind.named, ∀ c ∈ p.1.toList.head?, c ≠ '\'' ∧ c ≠ '@' ∧ c ≠ '~' ∧
    c ≠ '+' := by
  have hnamed : ∀ p ∈ Kind.named, p.1.toList.head?.all fun c =>
    c != '\'' && (c != '@' && (c != '~' && c != '+')) := by decide
  simpa only [Option.all_eq_true, Option.mem_def, and_eq_true, bne_iff_ne] using hnamed

lemma isVar_named : ∀ p ∈ Kind.named, p.2.isVar = false ∧ p.2.isRef = false ∧ p.2.isSch = false ∧
    p.2.isSelf = false := by
  decide

lemma text_named : ∀ p ∈ Kind.named, ∀ o : Bool, (p.2.withOptional o).text = p.1 ++ markText o := by
  decide

lemma isWord_of_named (h : (name, k) ∈ Kind.named) : IsWord name.toList :=
  ⟨(isWord_named _ h).1, fun c hc => ((isWord_named _ h).2 c hc).1⟩

lemma getLast?_of_named (h : (name, k) ∈ Kind.named) : name.toList.getLast? ≠ some '?' :=
  fun hlast => ((isWord_named _ h).2 _ (mem_of_getLast? hlast)).2 rfl

lemma head?_of_named (h : (name, k) ∈ Kind.named) : name.toList.head? ≠ some '+' :=
  fun hplus => (head_named _ h '+' hplus).2.2.2 rfl

lemma readBare_named (h : (name, k) ∈ Kind.named) (hne : k ≠ .alt) (hrest : Closed rest) :
    readBare src one name.toList rest = .ok (plain k, rest) := by
  have hhead := head_named _ h
  unfold readBare
  split
  · next heq => simp [heq] at hhead
  · next heq => simp [heq] at hhead
  · next heq => simp [heq] at hhead
  · rw [String.ofList_toList, ofName?_named _ h]
    simp only [hne, if_false]
    split
    · simp [Closed] at hrest
    · rfl

lemma readBare_cont {elem : Ty} (h : (name, k) ∈ Kind.named) (hcont : k.isElemCont)
    (hdepth : (around k elem).kind.depth ≤ Kind.maxDepth) (hone : one rest = .ok (elem, rest')) :
    readBare src one name.toList ('|' :: rest) = .ok (around k elem, rest') := by
  have hhead := head_named _ h
  have hne : k ≠ .alt := by
    rintro rfl
    exact absurd hcont (by decide)
  unfold readBare
  split
  · next heq => simp [heq] at hhead
  · next heq => simp [heq] at hhead
  · next heq => simp [heq] at hhead
  · rw [String.ofList_toList, ofName?_named _ h]
    have hcontOk : cont k elem = .ok (around k elem) := by
      exact if_neg (by omega)
    simp only [hne, hcont, hone]
    change (cont k elem >>= fun t => pure (t, rest')) = _
    rw [hcontOk]
    rfl

lemma readTail_named (h : (name, k) ∈ Kind.named) : readTail src one name.toList rest =
      if k = .alt then do
        let (cands, rest) ← readMany one (rest.length + 1) rest
        return (alt cands, rest) else if k.isComposite then readComposite src one k rest
      else refuse src .unknownComposite := by
  have hhead := head_named _ h
  unfold readTail
  split
  · next heq => simp [heq] at hhead
  · rw [String.ofList_toList, ofName?_named _ h]

/-! ## Members -/

lemma closed_membersText (ps : List Param) : Closed ((membersText ps).toList ++ ')' :: rest) := by
  cases ps with
  | nil => simp [membersText, Closed]
  | cons p ps => simp [membersText, Closed]

lemma closed_paramsText (ps : List Param) : Closed ((paramsText ps).toList ++ ')' :: rest) := by
  cases ps with
  | nil => simp [paramsText, Closed]
  | cons p ps =>
    rw [paramsText]
    split <;> simp [Closed]

lemma closed_constsText (consts : List (String × Int64)) :
    Closed ((constsText consts).toList ++ ')' :: rest) := by
  cases consts with
  | nil => simp [constsText, Closed]
  | cons p ps => simp [constsText, Closed]

lemma toList_membersText_cons (p : Param) (ps : List Param) :
    (membersText (p :: ps)).toList = ' ' :: (p.2.text.toList ++ (membersText ps).toList) := by
  simp [membersText]

lemma toList_constsText_cons (p : String × Int64) (consts : List (String × Int64)) :
    (constsText (p :: consts)).toList = ' ' :: '+' :: (p.1.toList ++
    ' ' :: ((Text.decimal p.2.toInt).toList ++ (constsText consts).toList)) := by
  simp [constsText]

lemma toList_paramsText_unnamed (t : Ty) (ps : List Param) :
    (paramsText (("", t) :: ps)).toList = ' ' :: (t.text.toList ++ (paramsText ps).toList) := by
  simp [paramsText]

lemma toList_paramsText_named (hname : name ≠ "") (t : Ty) (ps : List Param) :
    (paramsText ((name, t) :: ps)).toList = ' ' :: '+' ::
      (name.toList ++ ((if sharesNext t ps then [] else ' ' :: t.text.toList) ++
      (paramsText ps).toList)) := by
  rw [paramsText, if_neg hname]
  split <;> simp

structure ReadsAll (one : Reader Ty) (ts : List Ty) : Prop where
  read : ∀ t ∈ ts, ∀ rest, Closed rest → one (t.text.toList ++ rest) = .ok (t, rest)
  opens : ∀ t ∈ ts, Opens t.text.toList

lemma Opens.skipBlanks (h : Opens cs) : skipBlanks (' ' :: (cs ++ rest)) = cs ++ rest := by
  obtain ⟨c, r, rfl, hc, -⟩ := h
  exact skipBlanks_cons hc

lemma readMany_space (hopens : Opens cs) (hone : one (cs ++ rest) = .ok (t, rest)) {ts : List Ty}
    (hmany : readMany one fuel rest = .ok (ts, rest')) :
    readMany one (fuel + 1) (' ' :: (cs ++ rest)) = .ok (t :: ts, rest') := by
  rw [readMany, hopens.skipBlanks]
  obtain ⟨c, r, rfl, -, hparen, -⟩ := hopens
  rw [cons_append] at hone ⊢
  split
  · next heq => cases heq
  · next heq => exact absurd (cons.inj heq).1 hparen
  · next heq =>
    cases heq
    rw [hone]
    change (readMany one fuel rest >>= fun p => pure (t :: p.1, p.2)) = _
    rw [hmany]
    rfl

lemma readMany_membersText (h : ReadsAll one (ps.map (·.2)))
    (hfuel : (membersText ps).toList.length < fuel) :
    readMany one fuel ((membersText ps).toList ++ ')' :: rest) =
    .ok (ps.map (·.2), ')' :: rest) := by
  induction ps generalizing fuel with
  | nil =>
    obtain ⟨fuel, rfl⟩ : ∃ m, fuel = m + 1 := ⟨fuel - 1, by omega⟩
    rfl
  | cons p ps ih =>
    obtain ⟨fuel, rfl⟩ : ∃ m, fuel = m + 1 := ⟨fuel - 1, by omega⟩
    rw [toList_membersText_cons] at hfuel ⊢
    simp only [length_cons, length_append] at hfuel
    have hps : ReadsAll one (ps.map (·.2)) :=
      ⟨fun t ht => h.read t (by simp_all), fun t ht => h.opens t (by simp_all)⟩
    rw [cons_append, append_assoc]
    exact readMany_space (h.opens p.2 (by simp)) (h.read p.2 (by simp) _ (closed_membersText ps))
      (ih hps (by omega))

/-! ## Constants and parameters -/

lemma isDelimiter_of_isDigit (h : Text.isDigit c) : isDelimiter c = false := by
  have hbounds : 48 ≤ c.toNat ∧ c.toNat ≤ 57 := by
    simp only [Text.isDigit, and_eq_true, decide_eq_true_eq] at h
    exact ⟨h.1, h.2⟩
  have hblank : Text.isBlank c = false := by
    simp only [Text.isBlank, or_eq_false_iff, and_eq_false_iff, decide_eq_false_iff_not,
      beq_eq_false_iff_ne]
    omega
  have hne (d : Char) (hd : d.toNat < 48 ∨ 57 < d.toNat) : c ≠ d := by
    rintro rfl
    omega
  simp [isDelimiter, hblank, hne '(' (by decide), hne ')' (by decide), hne '"' (by decide),
    hne '|' (by decide)]

lemma isWord_repr (n : Nat) : IsWord n.repr.toList := by
  obtain ⟨c, cs, hc, -⟩ := Text.repr_eq_cons n
  exact ⟨by simp, fun c hc => isDelimiter_of_isDigit (Text.isDigit_of_mem_repr hc)⟩

lemma isWord_decimal (v : Int) : IsWord (Text.decimal v).toList := by
  have hrepr := isWord_repr v.natAbs
  unfold Text.decimal
  split
  · rw [String.toList_append]
    refine ⟨by simp, fun c hc => ?_⟩
    rcases mem_append.1 hc with hc | hc
    · obtain rfl : c = '-' := by simpa using hc
      decide
    · exact hrepr.plain c hc
  · exact hrepr

lemma readMembers_const (v : Int64) (hname : IsWord name.toList) (hrest : Closed rest) :
    readMembers src one true acc (fuel + 1)
    (' ' :: '+' :: (name.toList ++ ' ' :: ((Text.decimal v.toInt).toList ++ rest))) =
      readMembers src one true { acc with consts := acc.consts ++ [(name, v)] } fuel rest := by
  have hne : name.toList.isEmpty = false := by simpa using hname.ne_nil
  have hdigits := isWord_decimal v.toInt
  have hvalue : word (skipBlanks (' ' :: ((Text.decimal v.toInt).toList ++ rest))) =
    ((Text.decimal v.toInt).toList, rest) := by
    rw [skipBlanks_space]
    obtain ⟨c, r, hc⟩ := exists_cons_of_ne_nil hdigits.ne_nil
    have hblank : skipBlanks ((Text.decimal v.toInt).toList ++ rest) =
      (Text.decimal v.toInt).toList ++ rest := by
      rw [hc]
      exact skipBlanks_cons (isBlank_of_isDelimiter (hdigits.plain c (by simp [hc])))
    rw [hblank, word_append hdigits.plain hrest.isDelimiter]
  rw [readMembers, show skipBlanks
    (' ' :: '+' :: (name.toList ++ ' ' :: ((Text.decimal v.toInt).toList ++ rest))) =
    '+' :: (name.toList ++ ' ' :: ((Text.decimal v.toInt).toList ++ rest)) from rfl]
  simp only [word_append hname.plain (by simp [isDelimiter, Text.isBlank] : ∀ c ∈ (' ' :: _).head?,
    isDelimiter c), hne, hvalue, Text.integer64?_decimal, String.ofList_toList]
  rfl

lemma readMembers_constsText (hnames : ∀ c ∈ consts, IsWord c.1.toList)
    (hfuel : (constsText consts).toList.length < fuel) :
    readMembers src one true acc fuel ((constsText consts).toList ++ ')' :: rest) =
      .ok ({ acc with consts := acc.consts ++ consts }, ')' :: rest) := by
  induction consts generalizing acc fuel with
  | nil =>
    obtain ⟨fuel, rfl⟩ : ∃ m, fuel = m + 1 := ⟨fuel - 1, by omega⟩
    rw [append_nil]
    rfl
  | cons p consts ih =>
    obtain ⟨fuel, rfl⟩ : ∃ m, fuel = m + 1 := ⟨fuel - 1, by omega⟩
    rw [toList_constsText_cons] at hfuel ⊢
    simp only [length_cons, length_append] at hfuel
    simp only [cons_append, append_assoc]
    rw [readMembers_const p.2 (hnames p (by simp)) (closed_constsText consts),
      ih (fun c hc => hnames c (by simp [hc])) (by omega), append_assoc]
    rfl

lemma readMembers_name (hname : IsWord name.toList) (hrest : Closed rest) :
    readMembers src one false acc (fuel + 1) (' ' :: '+' :: (name.toList ++ rest)) =
      readMembers src one false { acc with waiting := acc.waiting ++ [name] } fuel rest := by
  have hne : name.toList.isEmpty = false := by simpa using hname.ne_nil
  rw [readMembers, show skipBlanks (' ' :: '+' :: (name.toList ++ rest)) =
    '+' :: (name.toList ++ rest) from rfl]
  simp only [word_append hname.plain hrest.isDelimiter, hne, String.ofList_toList]
  rfl

lemma readMembers_type (hopens : Opens cs) (hone : one (cs ++ rest) = .ok (t, rest)) :
    readMembers src one false acc (fuel + 1) (' ' :: (cs ++ rest)) = readMembers src one false
        { acc with
          params := acc.params ++ if acc.waiting.isEmpty then [("", t)]
    else acc.waiting.map fun n => (n, t)
          waiting := [] } fuel rest := by
  rw [readMembers, hopens.skipBlanks]
  obtain ⟨c, r, rfl, -, hparen, hplus, -⟩ := hopens
  rw [cons_append] at hone ⊢
  split
  · next heq => cases heq
  · next heq => exact absurd (cons.inj heq).1 hparen
  · next heq => exact absurd (cons.inj heq).1 hplus
  · next heq =>
    cases heq
    rw [hone]
    rfl

lemma readMembers_paramsText {ws : List String} {acc : List Param} (h : ReadsAll one (ps.map (·.2)))
    (hself : ∀ p ∈ ps, p.2.selfFree) (hnames : ∀ p ∈ ps, p.1 ≠ "" → IsWord p.1.toList)
    (hws : ws ≠ [] → ∃ p, ps.head? = some p ∧ p.1 ≠ "")
    (hfuel : (paramsText ps).toList.length < fuel) :
    readMembers src one false ⟨acc, [], ws⟩ fuel ((paramsText ps).toList ++ ')' :: rest) =
      .ok (⟨acc ++ ws.map (fun n => (n, ((ps.head?.map (·.2)).getD void))) ++ ps, [], []⟩,
      ')' :: rest) := by
  induction ps generalizing acc ws fuel with
  | nil =>
    obtain ⟨fuel, rfl⟩ : ∃ m, fuel = m + 1 := ⟨fuel - 1, by omega⟩
    obtain rfl : ws = [] := by
      by_contra hne
      simpa using hws hne
    simp only [map_nil, append_nil]
    rfl
  | cons p ps ih =>
    obtain ⟨n, t⟩ := p
    obtain ⟨fuel, rfl⟩ : ∃ m, fuel = m + 1 := ⟨fuel - 1, by omega⟩
    have hps : ReadsAll one (ps.map (·.2)) :=
      ⟨fun u hu => h.read u (by simp_all), fun u hu => h.opens u (by simp_all)⟩
    have hnext {ws : List String} {acc : List Param} (hws : ws ≠ [] → ∃ p, ps.head? = some p ∧
      p.1 ≠ "") {fuel : Nat} (hfuel : (paramsText ps).toList.length < fuel) :
        readMembers src one false ⟨acc, [], ws⟩ fuel ((paramsText ps).toList ++ ')' :: rest) =
          .ok (⟨acc ++ ws.map (fun n => (n, ((ps.head?.map (·.2)).getD void))) ++ ps, [], []⟩,
          ')' :: rest) :=
      ih hps (fun p hp => hself p (by simp [hp])) (fun p hp => hnames p (by simp [hp])) hws hfuel
    have hread : one (t.text.toList ++ ((paramsText ps).toList ++ ')' :: rest)) =
      .ok (t, (paramsText ps).toList ++ ')' :: rest) := h.read t (by simp) _ (closed_paramsText ps)
    have hopens := h.opens t (by simp)
    by_cases hn : n = ""
    · subst hn
      obtain rfl : ws = [] := by
        by_contra hne
        simpa using hws hne
      rw [toList_paramsText_unnamed] at hfuel ⊢
      simp only [length_cons, length_append] at hfuel
      simp only [cons_append, append_assoc]
      rw [readMembers_type hopens hread, hnext (by simp) (by omega)]
      simp
    · have hname := hnames (n, t) (by simp) hn
      by_cases hshares : sharesNext t ps
      · -- The name waits, and what it waits for is the type of the next parameter.
        rw [toList_paramsText_named hn, if_pos hshares, nil_append] at hfuel ⊢
        simp only [length_cons, length_append] at hfuel
        obtain ⟨⟨m, u⟩, ps', rfl⟩ : ∃ p ps', ps = p :: ps' := by
          cases ps with
          | nil => cases hshares
          | cons p ps' => exact ⟨p, ps', rfl⟩
        obtain ⟨hm, hequal⟩ : m ≠ "" ∧ equal u t := by simpa [sharesNext] using hshares
        obtain rfl : u = t := eq_of_equal (hself (m, u) (by simp)) (hself (n, t) (by simp)) hequal
        simp only [cons_append, append_assoc]
        rw [readMembers_name hname (closed_paramsText _),
          hnext (fun _ => ⟨(m, u), rfl, hm⟩) (by omega)]
        simp
      · -- The type follows, for this name and those that wait already.
        rw [toList_paramsText_named hn, if_neg hshares] at hfuel ⊢
        simp only [length_cons, length_append] at hfuel
        obtain ⟨fuel, rfl⟩ : ∃ m, fuel = m + 1 := ⟨fuel - 1, by omega⟩
        simp only [cons_append, append_assoc]
        rw [readMembers_name hname (by simp [Closed]), readMembers_type hopens hread,
          hnext (by simp) (by omega)]
        simp

/-! ## Composite types -/

def nameText (name : String) : String := if name = "" then "" else " \"" ++ name ++ "\""

lemma readMembers_skipBlanks {constants : Bool} :
    readMembers src one constants acc (fuel + 1) (skipBlanks cs) =
    readMembers src one constants acc (fuel + 1) cs := by
  rw [readMembers, readMembers, skipBlanks_idem]

lemma readName_quoted (hname : '"' ∉ name.toList) (hne : name ≠ "") :
    readName src ((nameText name).toList ++ rest) = .ok (name, rest) := by
  have htext : (nameText name).toList ++ rest = ' ' :: '"' :: (name.toList ++ '"' :: rest) := by
    simp [nameText, hne]
  have hall : ∀ c ∈ name.toList, (c != '"') = true := by
    intro c hc
    simp only [bne_iff_ne]
    rintro rfl
    exact hname hc
  rw [htext, readName, show skipBlanks (' ' :: '"' :: (name.toList ++ '"' :: rest)) =
    '"' :: (name.toList ++ '"' :: rest) from rfl]
  simp only [span_eq_takeWhile_dropWhile, takeWhile_append_of_pos hall,
    dropWhile_append_of_pos hall]
  simp

lemma readName_none (h : ∀ c ∈ (skipBlanks rest).head?, c ≠ '"') :
    readName src rest = .ok ("", skipBlanks rest) := by
  unfold readName
  split
  · next heq => simp [heq] at h
  · rfl

/-- The start of written members: a parenthesis, or one blank before what cannot be taken for a
name. -/
def Listed (cs : List Char) : Prop :=
  (∃ r, cs = ')' :: r) ∨ ∃ c r, cs = ' ' :: c :: r ∧ Text.isBlank c = false ∧ c ≠ '"'

lemma Listed.skipBlanks (h : Listed cs) :
    (∀ c ∈ (skipBlanks cs).head?, c ≠ '"') ∧ cs.length ≤ (Ty.skipBlanks cs).length + 1 := by
  rcases h with ⟨r, rfl⟩ | ⟨c, r, rfl, hblank, hquote⟩
  · rw [skipBlanks_cons (by decide)]
    simp
  · rw [skipBlanks_space, skipBlanks_cons hblank]
    simpa using hquote

lemma listed_constsText (consts : List (String × Int64)) :
    Listed ((constsText consts).toList ++ ')' :: rest) := by
  cases consts with
  | nil => exact .inl ⟨rest, by simp [constsText]⟩
  | cons p consts =>
    rw [toList_constsText_cons]
    exact .inr ⟨'+', _, rfl, by decide, by decide⟩

lemma listed_paramsText (h : ∀ p ∈ ps, Opens p.2.text.toList) :
    Listed ((paramsText ps).toList ++ ')' :: rest) := by
  cases ps with
  | nil => exact .inl ⟨rest, by simp [paramsText]⟩
  | cons p ps =>
    obtain ⟨n, t⟩ := p
    by_cases hn : n = ""
    · subst hn
      obtain ⟨c, r, htext, hblank, -, -, hquote⟩ := h ("", t) (by simp)
      rw [toList_paramsText_unnamed, htext]
      exact .inr ⟨c, _, rfl, hblank, hquote⟩
    · rw [toList_paramsText_named hn]
      exact .inr ⟨'+', _, rfl, by decide, by decide⟩

lemma readComposite_eq (hname : '"' ∉ name.toList) (hlisted : Listed members)
    (hmembers : ∀ fuel, members.length ≤ fuel →
      readMembers src one (k = .flags ∨ k = .enum) {} fuel members =
      .ok (⟨params, consts, []⟩, rest)) :
    readComposite src one k ((nameText name).toList ++ members) =
    .ok (detailed k name params consts, rest) := by
  obtain ⟨hquote, hlength⟩ := hlisted.skipBlanks
  unfold readComposite
  by_cases hne : name = ""
  · subst hne
    rw [show (nameText "").toList ++ members = members from rfl, readName_none hquote]
    change (readMembers src one (k = .flags ∨ k = .enum) {} ((skipBlanks members).length + 1)
      (skipBlanks members) >>= _) = _
    rw [readMembers_skipBlanks, hmembers _ hlength]
    rfl
  · rw [readName_quoted hname hne]
    change (readMembers src one (k = .flags ∨ k = .enum) {} (members.length + 1) members >>= _) = _
    rw [hmembers _ (by omega)]
    rfl

end Resolvent.Ty
