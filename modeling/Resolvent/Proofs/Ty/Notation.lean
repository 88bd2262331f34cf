import Resolvent.Proofs.Ty.Alternative
import Resolvent.Proofs.Ty.Variables
import Resolvent.Ty.Parser
import Mathlib.Data.List.TakeDrop
import Mathlib.Data.List.TakeWhile

/-!
# Types that the notation reaches

Reading a text gives a type that is notated: its names are words, the candidates of an alternative
are flat and pairwise different, containers nest no deeper than the limit and carry the depth that
their elements call for.
-/

namespace Resolvent.Ty

open List

/-- A name that is read as one word. -/
structure IsWord (cs : List Char) : Prop where
  ne_nil : cs ≠ []
  plain : ∀ c ∈ cs, isDelimiter c = false

/-- Types as reading gives them: the plain form, made optional or not. -/
inductive Notated : Ty → Prop
  | kind {name : String} {k : Kind} (o : Bool) : (name, k) ∈ Kind.named → k ≠ .alt →
      Notated ((plain k).optIf o)
  | var {id : Nat} {constraints : List Ty} (o : Bool) : 0 < id → id ≤ Kind.maxSlot →
      (∀ c ∈ constraints, Notated c) → Notated ((var id constraints).optIf o)
  | self {dist : Nat} (o : Bool) : Notated ((self dist).optIf o)
  | ref {name : String} (o : Bool) : IsWord name.toList → Text.natural32? name.toList = none →
    (o = false → name.toList.getLast? ≠ some '?') → Notated ((ref name).optIf o)
  | sch {name : String} (o : Bool) : IsWord name.toList →
      (o = false → name.toList.getLast? ≠ some '?') → Notated ((sch name).optIf o)
  | cont {name : String} {k : Kind} {elem : Ty} (o : Bool) : (name, k) ∈ Kind.named → k.isElemCont →
      Notated elem → (around k elem).kind.depth ≤ Kind.maxDepth → Notated ((around k elem).optIf o)
  | alt {cands : List Ty} (o : Bool) : (∀ c ∈ cands, Notated c) →
      (∀ c ∈ cands, c.kind.isAlt = false) → cands.length ≠ 1 → cands.foldl addCandidate [] = cands →
    Notated ((detailed .alt "" (cands.map fun c => ("", c)) []).optIf o)
  | composite {name kname : String} {k : Kind} {params : List Param}
      (o : Bool) : (kname, k) ∈ Kind.named →
    k.isComposite → k ≠ .alt → k ≠ .flags → k ≠ .enum → '"' ∉ name.toList →
    (∀ p ∈ params, Notated p.2) →
    (∀ p ∈ params, p.1 ≠ "" → IsWord p.1.toList) → Notated ((detailed k name params []).optIf o)
  | constants {name kname : String} {k : Kind} {consts : List (String × Int64)}
      (o : Bool) : (kname, k) ∈ Kind.named →
    k = .flags ∨ k = .enum → '"' ∉ name.toList → (∀ c ∈ consts, IsWord c.1.toList) →
    Notated ((detailed k name [] consts).optIf o)

lemma optIf_optIf (t : Ty) (o o' : Bool) : (t.optIf o).optIf o' = t.optIf (o || o') := by
  cases t <;> cases o <;> cases o' <;> rfl

lemma Notated.optIf {t : Ty} (h : Notated t) (o : Bool) : Notated (t.optIf o) := by
  have hweak {o' : Bool} {P : Prop} (hP : o' = false → P) (ho : (o' || o) = false) : P := by
    simp only [Bool.or_eq_false_iff] at ho
    exact hP ho.1
  cases h with
  | kind o' hk hne => exact optIf_optIf _ o' o ▸ .kind _ hk hne
  | var o' hpos hle hcs => exact optIf_optIf _ o' o ▸ .var _ hpos hle hcs
  | self o' => exact optIf_optIf _ o' o ▸ .self _
  | ref o' hw hn hlast => exact optIf_optIf _ o' o ▸ .ref _ hw hn (hweak hlast)
  | sch o' hw hlast => exact optIf_optIf _ o' o ▸ .sch _ hw (hweak hlast)
  | cont o' hk hc he hd => exact optIf_optIf _ o' o ▸ .cont _ hk hc he hd
  | alt o' hcs hflat hlen hfold => exact optIf_optIf _ o' o ▸ .alt _ hcs hflat hlen hfold
  | composite o' hk hc h₁ h₂ h₃ hn hps hws =>
    exact optIf_optIf _ o' o ▸ .composite _ hk hc h₁ h₂ h₃ hn hps hws
  | constants o' hk hc hn hcs => exact optIf_optIf _ o' o ▸ .constants _ hk hc hn hcs

/-! ## What readers give -/

variable {α β : Type} {src : String}

def Gives (x : Except TyError α) (P : α → Prop) : Prop := ∀ a, x = .ok a → P a

namespace Gives

variable {P : α → Prop} {Q : β → Prop}

lemma pure {a : α} (h : P a) : Gives (.ok a) P := by
  rintro _ ⟨⟩
  exact h

lemma error {e : TyError} : Gives (.error e : Except TyError α) P := nofun

lemma bind {x : Except TyError α} {k : α → Except TyError β} (h : Gives x P)
    (hk : ∀ a, P a → Gives (k a) Q) : Gives (x >>= k) Q := by
  cases x with
  | ok a => exact hk a (h a rfl)
  | error e => exact nofun

end Gives

lemma gives_varNumber (digits : List Char) : Gives (varNumber src digits) fun id => 0 < id ∧
    id ≤ Kind.maxSlot := by
  unfold varNumber
  split
  · next n hn =>
    refine .pure ⟨by omega, ?_⟩
    simp only [Text.natural32?, Text.natural?, Option.filter_eq_some_iff] at hn
    exact of_decide_eq_true hn.2
  · exact .error

lemma gives_cont (k : Kind) (elem : Ty) : Gives (cont k elem) fun t => t = around k elem ∧
    (around k elem).kind.depth ≤ Kind.maxDepth := by
  unfold cont
  dsimp only
  split
  · exact .error
  · next hdepth => exact .pure ⟨rfl, by omega⟩

lemma mem_of_ofName? {name : String} {k : Kind} (h : Kind.ofName? name = some k) :
    (name, k) ∈ Kind.named := by
  obtain ⟨⟨n, k⟩, hfind, rfl⟩ := Option.map_eq_some_iff.1 h
  obtain rfl : n = name := by simpa using find?_some hfind
  exact mem_of_find?_eq_some hfind

lemma plain_of_word {cs w rest : List Char} (h : word cs = (w, rest)) :
    ∀ c ∈ w, isDelimiter c = false := by
  obtain ⟨rfl, -⟩ : cs.takeWhile (!isDelimiter ·) = w ∧ cs.dropWhile (!isDelimiter ·) = rest := by
    simpa [word] using h
  intro c hc
  simpa using mem_takeWhile_imp hc

lemma word_eq_of_splitOpt {w name : List Char} {o : Bool} (h : splitOpt w = (name, o)) :
    w = name ++ (if o then ['?'] else []) ∧ (o = false → name.getLast? ≠ some '?') := by
  unfold splitOpt at h
  split at h
  · next hlast =>
    cases h
    exact ⟨by simpa using (dropLast_append_getLast? '?' hlast).symm, by simp⟩
  · next hlast =>
    cases h
    exact ⟨by simp, fun _ => hlast⟩

lemma gives_readName (cs : List Char) : Gives (readName src cs) fun p => '"' ∉ p.1.toList := by
  unfold readName
  split
  · split
    · next name _ _ hspan =>
      refine .pure ?_
      rw [span_eq_takeWhile_dropWhile] at hspan
      obtain ⟨rfl, -⟩ := Prod.mk.inj hspan
      rw [String.toList_ofList]
      intro hmem
      simpa using mem_takeWhile_imp hmem
    · exact .error
  · exact .pure (by simp)

/-- Members read so far. -/
structure Members.Notated (constants : Bool) (m : Members) : Prop where
  params : ∀ p ∈ m.params, p.2.Notated
  names : ∀ p ∈ m.params, p.1 ≠ "" → IsWord p.1.toList
  consts : ∀ c ∈ m.consts, IsWord c.1.toList
  waiting : ∀ n ∈ m.waiting, IsWord n.toList
  apart : if constants then m.params = [] else m.consts = []

namespace Members.Notated

variable {constants : Bool} {m : Members} {name : String}

lemma empty : Notated constants {} := ⟨nofun, nofun, nofun, nofun, by cases constants <;> rfl⟩

lemma addConst (h : m.Notated constants) (hname : IsWord name.toList) (v : Int64)
    (hconstants : constants) : Notated constants { m with consts := m.consts ++ [(name, v)] } := by
  subst hconstants
  refine ⟨h.params, h.names, fun c hc => ?_, h.waiting, h.apart⟩
  rcases mem_append.1 hc with hc | hc
  · exact h.consts c hc
  · obtain rfl := mem_singleton.1 hc
    exact hname

lemma addName (h : m.Notated constants) (hname : IsWord name.toList) :
    Notated constants { m with waiting := m.waiting ++ [name] } := by
  refine ⟨h.params, h.names, h.consts, fun n hn => ?_, h.apart⟩
  rcases mem_append.1 hn with hn | hn
  · exact h.waiting n hn
  · obtain rfl := mem_singleton.1 hn
    exact hname

lemma addType {t : Ty} (h : m.Notated false) (ht : t.Notated) : Notated false { m with
      params := m.params ++ if m.waiting.isEmpty then [("", t)] else m.waiting.map fun n => (n, t)
      waiting := [] } := by
  have hnew : ∀ p ∈ (if m.waiting.isEmpty then [("", t)] else m.waiting.map fun n => (n, t)),
      p.2 = t ∧ (p.1 ≠ "" → IsWord p.1.toList) := by
    intro p hp
    split at hp
    · obtain rfl := mem_singleton.1 hp
      exact ⟨rfl, fun hne => absurd rfl hne⟩
    · obtain ⟨n, hn, rfl⟩ := mem_map.1 hp
      exact ⟨rfl, fun _ => h.waiting n hn⟩
  refine ⟨fun p hp => ?_, fun p hp => ?_, h.consts, nofun, h.apart⟩
  · rcases mem_append.1 hp with hp | hp
    · exact h.params p hp
    · exact (hnew p hp).1 ▸ ht
  · rcases mem_append.1 hp with hp | hp
    · exact h.names p hp
    · exact (hnew p hp).2

end Members.Notated

/-! ## Alternatives -/

@[simp] lemma isAlt_optIf (t : Ty) (o : Bool) : (t.optIf o).kind.isAlt = t.kind.isAlt := by
  simp [Kind.isAlt]

lemma isAlt_named : ∀ p ∈ Kind.named, p.2 ≠ .alt → p.2.isAlt = false := by decide

lemma isAlt_var (id : Nat) (constraints : List Ty) : (var id constraints).kind.isAlt = false := by
  unfold var
  split <;> rfl

lemma Notated.candidates {t c : Ty} (h : Notated t) (hc : c ∈ t.candidates) :
    Notated c ∧ c.kind.isAlt = false := by
  unfold Ty.candidates at hc
  split at hc
  · next halt =>
    cases h with
    | @alt cands o hcs hflat =>
      rw [params_optIf] at hc
      have hmem : c ∈ cands := by simpa [params] using hc
      exact ⟨hcs c hmem, hflat c hmem⟩
    | kind o hk hne =>
      rw [isAlt_optIf] at halt
      exact absurd halt (Bool.eq_false_iff.1 (isAlt_named _ hk hne))
    | var o => simp [isAlt_var] at halt
    | composite o hk hcomp hne =>
      rw [isAlt_optIf] at halt
      exact absurd halt (Bool.eq_false_iff.1 (isAlt_named _ hk hne))
    | @cont _ k _ o hk hcont =>
      rw [isAlt_optIf] at halt
      have hne : k ≠ .alt := by
        rintro rfl
        exact absurd hcont (by decide)
      exact absurd halt (Bool.eq_false_iff.1 (isAlt_named _ hk hne))
    | constants o hk hkind =>
      rw [isAlt_optIf] at halt
      rcases hkind with rfl | rfl <;> cases halt
    | self | ref | sch =>
      rw [isAlt_optIf] at halt
      cases halt
  · next halt =>
    obtain rfl := mem_singleton.1 hc
    exact ⟨h, by simpa using halt⟩

lemma notated_alt {ts : List Ty} (h : ∀ t ∈ ts, Notated t) : Notated (alt ts) := by
  have hcands : ∀ c ∈ (ts.flatMap candidates).foldl addCandidate [], Notated c ∧
    c.kind.isAlt = false := by
    intro c hc
    rcases mem_foldl_addCandidate hc with hc | hc
    · cases hc
    · obtain ⟨t, ht, hc⟩ := mem_flatMap.1 hc
      exact (h t ht).candidates hc
  have hagain := foldl_addCandidate_again (ts.flatMap candidates) (show [].foldl addCandidate [] =
    [] from rfl)
  unfold alt
  split
  · next t heq => exact (hcands t (by simp [heq])).1
  · next cands hne =>
    refine .alt false (fun c hc => (hcands c hc).1) (fun c hc => (hcands c hc).2) ?_ hagain
    intro hlen
    obtain ⟨t, ht⟩ := length_eq_one_iff.1 hlen
    exact hne t ht

/-! ## Readers -/

section

variable {one : Reader Ty} (hone : ∀ cs, Gives (one cs) fun p => Notated p.1)
include hone

lemma gives_readBare {name : List Char} {o : Bool} (hplain : ∀ c ∈ name, isDelimiter c = false)
    (hlast : o = false → name.getLast? ≠ some '?') (rest : List Char) :
    Gives (readBare src one name rest) fun p => Notated (p.1.optIf o) := by
  -- What stands after a mark is a word, and ends as the whole does.
  have htarget {m : Char} {target : List Char} (hm : name = m :: target)
    (hne : target.isEmpty = false) : IsWord (String.ofList target).toList ∧
      (o = false → (String.ofList target).toList.getLast? ≠ some '?') := by
    have hne : target ≠ [] := by simpa using hne
    rw [String.toList_ofList]
    refine ⟨⟨hne, fun c hc => hplain c (by simp [hm, hc])⟩, fun ho => ?_⟩
    have := hlast ho
    rwa [hm, getLast?_cons_of_ne_nil hne] at this
  unfold readBare
  split
  · exact .bind (gives_varNumber _) fun id hid =>
      .pure (.var o hid.1 hid.2 (by simp : ∀ c ∈ ([] : List Ty), Notated c))
  · next target =>
    split
    · exact .error
    · exact .pure (.self o)
    · next hnumber =>
      split
      · exact .error
      · next hne =>
        obtain ⟨hword, hmark⟩ := htarget rfl (by simpa using hne)
        exact .pure (.ref o hword (by rwa [String.toList_ofList]) hmark)
  · split
    · exact .error
    · next hne =>
      obtain ⟨hword, hmark⟩ := htarget rfl (by simpa using hne)
      exact .pure (.sch o hword hmark)
  · split
    · exact .error
    · next k hk =>
      have hk := mem_of_ofName? hk
      split
      · exact .error
      · next hne =>
        split
        · split
          · next hcont =>
            refine .bind (hone _) fun p hp => .bind (gives_cont k p.1) fun t ht => ?_
            obtain ⟨rfl, hdepth⟩ := ht
            exact .pure (.cont o hk hcont hp hdepth)
          · exact .error
        · exact .pure (.kind o hk hne)

lemma gives_readWord (cs : List Char) : Gives (readWord src one cs) fun p => Notated p.1 := by
  rcases hword : word cs with ⟨w, rest⟩
  rcases hsplit : splitOpt w with ⟨name, o⟩
  unfold readWord
  simp only [hword, hsplit]
  obtain ⟨hw, hlast⟩ := word_eq_of_splitOpt hsplit
  split
  · exact .error
  · refine .bind (gives_readBare hone (fun c hc => plain_of_word hword c ?_) hlast rest) fun p hp =>
      .pure hp
    rw [hw]
    exact mem_append_left _ hc

lemma gives_readMany (fuel : Nat) (cs : List Char) :
    Gives (readMany one fuel cs) fun p => ∀ t ∈ p.1, Notated t := by
  induction fuel generalizing cs with
  | zero => exact .pure nofun
  | succ fuel ih =>
    unfold readMany
    split
    · exact .pure nofun
    · exact .pure nofun
    · exact .bind (hone _) fun p hp => .bind (ih _) fun q hq => .pure (forall_mem_cons.2 ⟨hp, hq⟩)

lemma gives_readMembers (constants : Bool) (acc : Members) (hacc : acc.Notated constants)
    (fuel : Nat) (cs : List Char) :
    Gives (readMembers src one constants acc fuel cs) fun p => p.1.Notated constants := by
  induction fuel generalizing acc cs with
  | zero => exact .pure hacc
  | succ fuel ih =>
    unfold readMembers
    split
    · exact .pure hacc
    · exact .pure hacc
    · next r _ =>
      rcases hword : word r with ⟨name, rest⟩
      simp only
      split
      · exact .error
      · next hne =>
        have hname : IsWord (String.ofList name).toList := by
          rw [String.toList_ofList]
          exact ⟨by simpa using hne, plain_of_word hword⟩
        split
        · next hconstants =>
          split
          · exact ih _ (hacc.addConst hname _ hconstants) _
          · exact .error
        · exact ih _ (hacc.addName hname) _
    · split
      · exact .error
      · next hconstants =>
        obtain rfl : constants = false := by simpa using hconstants
        exact .bind (hone _) fun p hp => ih _ (hacc.addType hp) _

lemma gives_readComposite {kname : String} {k : Kind} (hk : (kname, k) ∈ Kind.named)
    (hcomp : k.isComposite) (halt : k ≠ .alt)
    (cs : List Char) : Gives (readComposite src one k cs) fun p => Notated p.1 := by
  refine .bind (gives_readName cs) fun p hp =>
    .bind (gives_readMembers hone _ _ .empty _ _) fun q hq => ?_
  dsimp only
  split
  · by_cases hconstants : k = .flags ∨ k = .enum
    · have hparams : q.1.params = [] := by simpa [hconstants] using hq.apart
      rw [hparams]
      exact .pure (.constants false hk hconstants hp hq.consts)
    · have hconsts : q.1.consts = [] := by simpa [hconstants] using hq.apart
      rw [not_or] at hconstants
      rw [hconsts]
      exact .pure (.composite false hk hcomp halt hconstants.1 hconstants.2 hp hq.params hq.names)
  · exact .error

lemma gives_readTail (name rest : List Char) :
    Gives (readTail src one name rest) fun p => Notated p.1 := by
  unfold readTail
  split
  · refine .bind (gives_varNumber _) fun id hid => .bind (gives_readMany hone _ _) fun p hp => ?_
    exact .pure (.var false hid.1 hid.2 hp)
  · split
    · exact .error
    · next k hk =>
      have hk := mem_of_ofName? hk
      split
      · exact .bind (gives_readMany hone _ _) fun p hp => .pure (notated_alt hp)
      · next halt =>
        split
        · next hcomp => exact gives_readComposite hone hk hcomp halt rest
        · exact .error

lemma gives_readList (cs : List Char) : Gives (readList src one cs) fun p => Notated p.1 := by
  refine .bind (gives_readTail hone _ _) fun p hp => ?_
  dsimp only
  split
  · exact .pure (hp.optIf _)
  · exact .error

end

lemma gives_readType (fuel : Nat) (cs : List Char) :
    Gives (readType src fuel cs) fun p => Notated p.1 := by
  induction fuel generalizing cs with
  | zero => exact .error
  | succ fuel ih =>
    unfold readType
    split
    · exact .error
    · exact gives_readList ih _
    · exact gives_readWord ih _

lemma notated_of_parse {t : Ty} (h : parse src = .ok t) : Notated t := by
  have hgives : Gives (parse src) Notated := by
    refine .bind (gives_readType _ _) fun p hp => ?_
    dsimp only
    split
    · exact .pure hp
    · exact .error
  exact hgives t h

end Resolvent.Ty
