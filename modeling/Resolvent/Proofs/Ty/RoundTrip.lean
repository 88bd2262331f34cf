import Resolvent.Proofs.Ty.Reading

/-!
-/

namespace Resolvent.Ty

open List

variable {src name kname : String} {n rest members : List Char} {o : Bool} {t : Ty} {fuel id : Nat}
  {k : Kind} {ps : List Param} {cs : List (String × Int64)} {p : Param} {cands ts : List Ty}

/-! ## Written forms -/

lemma text_kind : ∀ p ∈ Kind.named, p.2 ≠ .alt → ∀ o, ((plain p.2).optIf o).text =
    p.1 ++ markText o := by decide

lemma text_var (id : Nat) (o : Bool) :
    ((var id []).optIf o).text = "'" ++ id.repr ++ markText o := by cases o <;> rfl

lemma text_var_cons (id : Nat) (c : Ty) (cs : List Ty) (o : Bool) :
    ((var id (c :: cs)).optIf o).text =
    "('" ++ id.repr ++ markText o ++ membersText ((c :: cs).map fun c => ("", c)) ++ ")" := by
  cases o <;> rfl

lemma text_ref (name : String) (o : Bool) :
    ((ref name).optIf o).text = "@" ++ name ++ markText o := by cases o <;> rfl

lemma text_sch (name : String) (o : Bool) :
    ((sch name).optIf o).text = "~" ++ name ++ markText o := by cases o <;> rfl

lemma text_alt (ps : List Param) (o : Bool) :
    ((detailed .alt "" ps []).optIf o).text = "(alt" ++ markText o ++ membersText ps ++ ")" := by
  cases o <;> rfl

lemma bare_named : ∀ p ∈ Kind.named, p.2.optional = false ∧ p.2.slot = 0 := by decide

lemma detailed_optIf (hk : k.optional = false) (name : String) (ps : List Param)
    (cs : List (String × Int64)) (o : Bool) :
    (detailed k name ps cs).optIf o = detailed (k.withOptional o) name ps cs := by
  cases k
  cases hk
  cases o <;> rfl

lemma text_detailed (h : (kname, k) ∈ Kind.named) (hne : k ≠ .alt) (slot : Nat) (name : String)
    (ps : List Param) (cs : List (String × Int64)) (o : Bool) :
    ((detailed (k.withSlot slot) name ps cs).optIf o).text =
      if k.isElemCont then kname ++ markText o ++ elemText ps
      else if k.isComposite then "(" ++ (kname ++ markText o) ++ nameText name ++ constsText cs ++
        paramsText ps ++ ")" else kname ++ markText o := by
  obtain ⟨hvar, href, hsch, hself⟩ := isVar_named _ h
  have halt := isAlt_named _ h hne
  have htext := text_named _ h o
  rw [detailed_optIf (show (k.withSlot slot).optional = false from (bare_named _ h).1),
    text, ← htext]
  simp only [Kind.isVar, Kind.isRef, Kind.isSch, Kind.isSelf, Kind.isAlt]
    at hvar href hsch hself halt
  simp only [Kind.isVar, Kind.isRef, Kind.isSch, Kind.isSelf, Kind.isAlt, Kind.withOptional,
    Kind.withSlot, hvar, href, hsch, hself, halt]
  rfl

lemma text_cont (h : (kname, k) ∈ Kind.named) (hcont : k.isElemCont) (elem : Ty) (o : Bool) :
    ((around k elem).optIf o).text = kname ++ markText o ++ ("|" ++ elem.text) := by
  have hne : k ≠ .alt := by
    rintro rfl
    exact absurd hcont (by decide)
  rw [around, Kind.around, text_detailed h hne, if_pos hcont, elemText]

lemma isElemCont_composite : ∀ p ∈ Kind.named, p.2.isComposite → p.2.isElemCont = false := by decide

lemma text_composite (h : (kname, k) ∈ Kind.named) (hcomp : k.isComposite) (hne : k ≠ .alt)
    (name : String) (ps : List Param) (cs : List (String × Int64)) (o : Bool) :
    ((detailed k name ps cs).optIf o).text =
      "(" ++ (kname ++ markText o) ++ nameText name ++ constsText cs ++ paramsText ps ++ ")" := by
  have hslot : k.withSlot 0 = k := by
    exact congrArg _ (bare_named _ h).2.symm
  have htext := text_detailed h hne 0 name ps cs o
  rwa [hslot, isElemCont_composite _ h hcomp, if_pos hcomp] at htext

/-! ## Lengths -/

lemma length_text_le_membersText (h : p ∈ ps) :
    p.2.text.toList.length < (membersText ps).toList.length := by
  induction ps with
  | nil => cases h
  | cons q ps ih =>
    rw [toList_membersText_cons]
    simp only [length_cons, length_append]
    rcases mem_cons.1 h with rfl | h
    · omega
    · have := ih h
      omega

lemma length_text_le_paramsText (hself : ∀ p ∈ ps, p.2.selfFree) (h : p ∈ ps) :
    p.2.text.toList.length < (paramsText ps).toList.length := by
  induction ps generalizing p with
  | nil => cases h
  | cons q ps ih =>
    obtain ⟨n, t⟩ := q
    have hlater (p : Param) (hp : p ∈ ps) := ih (fun p hp => hself p (by simp [hp])) hp
    by_cases hn : n = ""
    · subst hn
      rw [toList_paramsText_unnamed]
      simp only [length_cons, length_append]
      rcases mem_cons.1 h with rfl | h
      · dsimp only
        omega
      · have := hlater p h
        omega
    · rw [toList_paramsText_named hn]
      simp only [length_cons, length_append]
      rcases mem_cons.1 h with rfl | h
      · split
        · next hshares =>
          cases ps with
          | nil => cases hshares
          | cons q ps =>
            obtain ⟨-, hequal⟩ : q.1 ≠ "" ∧ equal q.2 t := by simpa [sharesNext] using hshares
            obtain rfl : q.2 = t := eq_of_equal (hself q (by simp)) (hself (n, t) (by simp)) hequal
            have := hlater q (by simp)
            simp only [length_nil]
            omega
        · simp only [length_cons]
          omega
      · have := hlater p h
        omega

/-! ## Names and candidates -/

lemma selfFree_optIf : (t.optIf o).selfFree = t.selfFree := by
  rw [Bool.eq_iff_iff, selfFree_iff, selfFree_iff]
  simp [Kind.isSelf]

lemma selfFree_of_mem (h : ((detailed k name ps cs).optIf o).selfFree) (hp : p ∈ ps) :
    p.2.selfFree := by
  rw [selfFree_optIf] at h
  exact (selfFree_iff.1 h).2 p hp

lemma selfFree_of_mem_var {cs : List Ty} {c : Ty} (h : ((var id cs).optIf o).selfFree)
    (hc : c ∈ cs) : c.selfFree := by
  cases cs with
  | nil => cases hc
  | cons d cs => exact selfFree_of_mem h (List.mem_map.2 ⟨c, hc, rfl⟩)

lemma varNumber_repr (hpos : 0 < id) (hle : id ≤ Kind.maxSlot) :
    varNumber src id.repr.toList = .ok id := by
  obtain ⟨m, rfl⟩ : ∃ m, id = m + 1 := ⟨id - 1, by omega⟩
  have hread : Text.natural32? (m + 1).repr.toList = some (m + 1) := Text.natural?_repr hle
  rw [varNumber, hread]

lemma isWord_var (id : Nat) : IsWord ('\'' :: id.repr.toList) ∧ ('\'' :: id.repr.toList).getLast? ≠
    some '?' := by
  have hrepr := isWord_repr id
  constructor
  · exact ⟨nofun, forall_mem_cons.2 ⟨by decide, hrepr.plain⟩⟩
  · rw [getLast?_cons_of_ne_nil hrepr.ne_nil]
    intro hlast
    exact absurd (Text.isDigit_of_mem_repr (mem_of_getLast? hlast)) (by decide)

lemma isWord_marked {m : Char} (hm : isDelimiter m = false) (hn : IsWord n)
    (hlast : o = false → n.getLast? ≠ some '?') :
    IsWord (m :: n) ∧ (o = false → (m :: n).getLast? ≠ some '?') := by
  refine ⟨⟨nofun, forall_mem_cons.2 ⟨hm, hn.plain⟩⟩, fun ho => ?_⟩
  rw [getLast?_cons_of_ne_nil hn.ne_nil]
  exact hlast ho

lemma alt_of_flat (hflat : ∀ c ∈ cands, c.kind.isAlt = false) (hlen : cands.length ≠ 1)
    (hadd : cands.foldl addCandidate [] = cands) :
    alt cands = detailed .alt "" (cands.map fun c => ("", c)) [] := by
  have hsame : cands.flatMap candidates = cands := by
    rw [flatMap_congr (g := fun c => [c]) fun c hc => by simp [candidates, hflat c hc]]
    simp
  unfold alt
  rw [hsame, hadd]
  split
  · simp at hlen
  · rfl

/-! ## Reading back -/

structure ReadsBack (t : Ty) : Prop where
  opens : Opens t.text.toList
  read : ∀ src fuel rest, t.text.toList.length ≤ fuel → Closed rest →
  readType src fuel (t.text.toList ++ rest) = .ok (t, rest)

lemma readsAll (h : ∀ t ∈ ts, ReadsBack t) (hfuel : ∀ t ∈ ts, t.text.toList.length ≤ fuel) :
    ReadsAll (readType src fuel) ts :=
  ⟨fun t ht rest hrest => (h t ht).read src fuel rest (hfuel t ht) hrest,
    fun t ht => (h t ht).opens⟩

lemma readMany_readsBack (h : ∀ t ∈ ts, ReadsBack t)
    (hmembers : members = (membersText (ts.map fun c => ("", c))).toList)
    (hfuel : members.length ≤ fuel) :
    readMany (readType src fuel) ((members ++ ')' :: rest).length + 1) (members ++ ')' :: rest) =
    .ok (ts, ')' :: rest) := by
  subst hmembers
  have htypes : (ts.map fun c => (("", c) : Param)).map (·.2) = ts := by simp
  have hall : ReadsAll (readType src fuel) ((ts.map fun c => (("", c) : Param)).map (·.2)) := by
    rw [htypes]
    refine readsAll h fun t ht => ?_
    have := length_text_le_membersText
      (List.mem_map.2 ⟨t, ht, rfl⟩ : (("", t) : Param) ∈ ts.map fun c => ("", c))
    dsimp only at this
    omega
  rw [readMany_membersText hall (by simp only [length_append]; omega), htypes]

namespace ReadsBack

lemma of_word (more : List Char)
    (htext : (t.optIf o).text.toList = n ++ (markText o).toList ++ more) (hn : IsWord n)
    (hplus : n.head? ≠ some '+') (hlast : o = false → n.getLast? ≠ some '?')
    (hmore : more = [] ∨ ∃ r, more = '|' :: r)
    (hbare : ∀ src fuel rest, more.length ≤ fuel → Closed rest →
    readBare src (readType src fuel) n (more ++ rest) = .ok (t, rest)) : ReadsBack (t.optIf o) := by
  obtain ⟨c, r, rfl⟩ := exists_cons_of_ne_nil hn.ne_nil
  have hc := hn.plain c (by simp)
  constructor
  · rw [htext]
    refine ⟨c, _, rfl, isBlank_of_isDelimiter hc, ?_, by simpa using hplus, ?_⟩
    · rintro rfl
      cases hc
    · rintro rfl
      cases hc
  · intro src fuel rest hfuel hrest
    rw [htext] at hfuel ⊢
    simp only [length_append, length_cons] at hfuel
    obtain ⟨fuel, rfl⟩ : ∃ m, fuel = m + 1 := ⟨fuel - 1, by omega⟩
    rw [append_assoc]
    refine readType_word hn hlast ?_ (hbare src fuel rest (by omega) hrest)
    rcases hmore with rfl | ⟨r, rfl⟩
    · exact hrest.isDelimiter
    · simp [isDelimiter]

lemma of_list (n more : List Char)
    (htext : (t.optIf o).text.toList = '(' :: (n ++ (markText o).toList ++ (more ++ [')'])))
    (hn : IsWord n) (hlast : o = false → n.getLast? ≠ some '?')
    (hmore : ∀ rest, Closed (more ++ ')' :: rest)) (htail : ∀ src fuel rest, more.length ≤ fuel →
      readTail src (readType src fuel) n (more ++ ')' :: rest) = .ok (t, ')' :: rest)) : ReadsBack
      (t.optIf o) := by
  constructor
  · rw [htext]
    exact ⟨'(', _, rfl, by decide, by decide, by decide, by decide⟩
  · intro src fuel rest hfuel hrest
    rw [htext] at hfuel ⊢
    simp only [length_append, length_cons, length_nil] at hfuel
    obtain ⟨fuel, rfl⟩ : ∃ m, fuel = m + 1 := ⟨fuel - 1, by omega⟩
    simpa using readType_list hn hlast (hmore rest).isDelimiter (htail src fuel rest (by omega))

lemma kind (hk : (name, k) ∈ Kind.named) (hne : k ≠ .alt) : ReadsBack ((plain k).optIf o) := by
  refine of_word [] ?_ (isWord_of_named hk) (head?_of_named hk) (fun _ => getLast?_of_named hk)
    (.inl rfl) ?_
  · rw [text_kind _ hk hne, String.toList_append, append_nil]
  · intro src fuel rest _ hrest
    exact readBare_named hk hne hrest

lemma var {constraints : List Ty} (hpos : 0 < id) (hle : id ≤ Kind.maxSlot)
    (h : ∀ t ∈ constraints, ReadsBack t) : ReadsBack ((Ty.var id constraints).optIf o) := by
  obtain ⟨hword, hlast⟩ := isWord_var id
  cases constraints with
  | nil =>
    refine of_word [] ?_ hword (by simp) (fun _ => hlast) (.inl rfl) ?_
    · rw [text_var]
      simp
    · intro src fuel rest _ _
      change (varNumber src id.repr.toList >>= fun id => pure (Ty.var id [], rest)) = _
      rw [varNumber_repr hpos hle]
      rfl
  | cons c cs =>
    refine of_list _ (membersText ((c :: cs).map fun c => ("", c))).toList ?_ hword (fun _ => hlast)
      (fun _ => closed_membersText _) ?_
    · rw [text_var_cons]
      simp
    · intro src fuel rest hfuel
      change (varNumber src id.repr.toList >>= fun id => readMany (readType src fuel) _ _ >>=
        fun p => pure (Ty.var id p.1, p.2)) = _
      rw [varNumber_repr hpos hle, readMany_readsBack h rfl hfuel]
      rfl

lemma ref (hname : IsWord name.toList) (hnumber : Text.natural32? name.toList = none)
    (hlast : o = false → name.toList.getLast? ≠ some '?') : ReadsBack ((Ty.ref name).optIf o) := by
  obtain ⟨hword, hlast⟩ := isWord_marked (show isDelimiter '@' = false by decide) hname hlast
  refine of_word [] ?_ hword (by simp) hlast (.inl rfl) ?_
  · rw [text_ref]
    simp
  · intro src fuel rest _ _
    simp [readBare, hnumber, hname.ne_nil]

lemma sch (hname : IsWord name.toList) (hlast : o = false → name.toList.getLast? ≠ some '?') :
    ReadsBack ((Ty.sch name).optIf o) := by
  obtain ⟨hword, hlast⟩ := isWord_marked (show isDelimiter '~' = false by decide) hname hlast
  refine of_word [] ?_ hword (by simp) hlast (.inl rfl) ?_
  · rw [text_sch]
    simp
  · intro src fuel rest _ _
    simp [readBare, hname.ne_nil]

lemma cont {elem : Ty} (hk : (name, k) ∈ Kind.named) (hcont : k.isElemCont)
    (hdepth : (around k elem).kind.depth ≤ Kind.maxDepth) (h : ReadsBack elem) :
    ReadsBack ((around k elem).optIf o) := by
  refine of_word ('|' :: elem.text.toList) ?_ (isWord_of_named hk) (head?_of_named hk) (fun _ =>
    getLast?_of_named hk) (.inr ⟨_, rfl⟩) ?_
  · rw [text_cont hk hcont]
    simp
  · intro src fuel rest hfuel hrest
    simp only [length_cons] at hfuel
    exact readBare_cont hk hcont hdepth (h.read src fuel rest (by omega) hrest)

lemma alt (hflat : ∀ c ∈ cands, c.kind.isAlt = false) (hlen : cands.length ≠ 1)
    (hadd : cands.foldl addCandidate [] = cands) (h : ∀ t ∈ cands, ReadsBack t) :
    ReadsBack ((detailed .alt "" (cands.map fun c => ("", c)) []).optIf o) := by
  have hk : ("alt", Kind.alt) ∈ Kind.named := by decide
  refine of_list "alt".toList (membersText (cands.map fun c => ("", c))).toList ?_
    (isWord_of_named hk) (fun _ => getLast?_of_named hk) (fun _ => closed_membersText _) ?_
  · rw [text_alt]
    simp
  · intro src fuel rest hfuel
    rw [readTail_named hk, readMany_readsBack h rfl hfuel]
    change Except.ok (Ty.alt cands, ')' :: rest) = _
    rw [alt_of_flat hflat hlen hadd]

lemma composite (hk : (kname, k) ∈ Kind.named)
    (hcomp : k.isComposite) (hne : k ≠ .alt) (hname : '"' ∉ name.toList) (members : List Char)
    (htext : (constsText cs).toList ++ (paramsText ps).toList = members)
    (hclosed : ∀ rest, Closed (members ++ ')' :: rest))
    (hlisted : ∀ rest, Listed (members ++ ')' :: rest))
    (hmembers : ∀ src fuel rest, members.length ≤ fuel → ∀ more, members.length < more →
      readMembers src (readType src fuel) (k = .flags ∨ k = .enum) {} more (members ++ ')' ::
      rest) = .ok (⟨ps, cs, []⟩, ')' :: rest)) : ReadsBack ((detailed k name ps cs).optIf o) := by
  refine of_list kname.toList ((nameText name).toList ++ members) ?_ (isWord_of_named hk) (fun _ =>
    getLast?_of_named hk) ?_ ?_
  · rw [text_composite hk hcomp hne, ← htext]
    simp
  · intro rest
    by_cases hempty : name = ""
    · simpa [hempty, nameText] using hclosed rest
    · simp [hempty, nameText, Closed]
  · intro src fuel rest hfuel
    rw [length_append] at hfuel
    rw [readTail_named hk, if_neg hne, if_pos hcomp, append_assoc]
    refine readComposite_eq hname (hlisted rest) fun more hmore =>
      hmembers src fuel rest (by omega) more ?_
    simp only [length_append, length_cons] at hmore
    omega

end ReadsBack

lemma Notated.readsBack (h : Notated t) (hself : t.selfFree) : ReadsBack t := by
  induction h with
  | kind o hk hne => exact .kind hk hne
  | var o hpos hle _ ih => exact .var hpos hle fun c hc => ih c hc (selfFree_of_mem_var hself hc)
  | self o =>
    rw [selfFree_optIf] at hself
    cases hself
  | ref o hname hnumber hlast => exact .ref hname hnumber hlast
  | sch o hname hlast => exact .sch hname hlast
  | cont o hk hcont _ hdepth ih =>
    exact .cont hk hcont hdepth (ih (selfFree_of_mem hself (mem_singleton.2 rfl)))
  | alt o _ hflat hlen hadd ih =>
    exact .alt hflat hlen hadd fun c hc =>
      ih c hc (selfFree_of_mem hself (List.mem_map.2 ⟨c, hc, rfl⟩))
  | @composite name kname k params o hk hcomp halt hflags henum hname _ hnames ih =>
    have hfree (p : Param) (hp : p ∈ params) : p.2.selfFree := selfFree_of_mem hself hp
    have hback (p : Param) (hp : p ∈ params) : ReadsBack p.2 := ih p hp (hfree p hp)
    refine .composite hk hcomp halt hname (paramsText params).toList rfl (fun _ =>
      closed_paramsText _) (fun _ => listed_paramsText fun p hp => (hback p hp).opens) ?_
    intro src fuel rest hfuel more hmore
    have hall : ReadsAll (readType src fuel) (params.map (·.2)) := by
      refine readsAll (List.forall_mem_map.2 hback) (List.forall_mem_map.2 fun p hp => ?_)
      have := length_text_le_paramsText hfree hp
      omega
    have hparams : ¬ (k = .flags ∨ k = .enum) := by simp [hflags, henum]
    rw [decide_eq_false hparams]
    exact readMembers_paramsText hall hfree hnames (fun hne => absurd rfl hne) hmore
  | @constants name kname k consts o hk hkind hname hnames =>
    have halt : k ≠ .alt := by rcases hkind with rfl | rfl <;> decide
    have hcomp : k.isComposite := by rcases hkind with rfl | rfl <;> decide
    refine .composite hk hcomp halt hname (constsText consts).toList (by simp [paramsText])
      (fun _ => closed_constsText _) (fun _ => listed_constsText _) ?_
    intro src fuel rest hfuel more hmore
    rw [decide_eq_true hkind]
    exact readMembers_constsText hnames hmore

/-- What a text is read as is read back from its written form, unless it has self references. So no
two such types are written alike, and writing what has been read gives the same text again. -/
theorem parse_text (h : parse src = .ok t) (hself : t.selfFree) : parse t.text = .ok t ∧
    (∀ src' t', parse src' = .ok t' → t'.selfFree → t'.text = t.text → t' = t) ∧
    (parse t.text).map text = .ok t.text := by
  have hparse {t : Ty} (hnotated : Notated t) (hself : t.selfFree) : parse t.text = .ok t := by
    have hread := (hnotated.readsBack hself).read t.text (t.text.toList.length + 1) [] (by omega)
      (by simp [Closed])
    rw [List.append_nil] at hread
    unfold parse
    dsimp only
    rw [hread]
    rfl
  have hback := hparse (notated_of_parse h) hself
  refine ⟨hback, fun src' t' h' hself' htext => ?_, by rw [hback]; rfl⟩
  have hback' := hparse (notated_of_parse h') hself'
  rw [htext, hback] at hback'
  exact (Except.ok.inj hback').symm

/-- Odd words: a doubled mark, signs that are names or belong to numerals, a type that is shared and
one that is repeated. -/
theorem parse_text_sample : ∃ t,
    parse "(form? \"f x\" ++ +b? list?|(alt @x?? ('+2 int?) (alt @x?? str)) (bits ++ -0) @+)" =
    .ok t ∧ t.text = "(form? \"f x\" ++ +b? list?|(alt @x?? ('2 int?) str) (bits ++ 0) @+)" ∧
    parse t.text = .ok t := by
  have hread : (parse
    "(form? \"f x\" ++ +b? list?|(alt @x?? ('+2 int?) (alt @x?? str)) (bits ++ -0) @+)").toOption.map
      (fun t => (t.selfFree, t.text)) =
      some (true, "(form? \"f x\" ++ +b? list?|(alt @x?? ('2 int?) str) (bits ++ 0) @+)") := by
    decide +kernel
  rcases h : parse "(form? \"f x\" ++ +b? list?|(alt @x?? ('+2 int?) (alt @x?? str)) (bits ++ -0) @+)" with _ | t
  · rw [h] at hread
    cases hread
  · rw [h] at hread
    obtain ⟨hself, htext⟩ := Prod.mk.inj (Option.some.inj hread)
    exact ⟨t, rfl, htext, (parse_text h hself).1⟩

end Resolvent.Ty
