import Resolvent.Text.Numeral
import Mathlib.Data.Nat.Digits.Defs

/-!
# Reading numerals back

A number in decimal is read as that number.
-/

namespace Resolvent.Text

open List Option

lemma digitValue_digitChar : ∀ base ≤ 16, ∀ d < base, digitValue base d.digitChar = some d := by
  decide

lemma isDigit_digitChar : ∀ d < 10, isDigit d.digitChar := by decide

lemma readDigits_append (base acc : Nat) (cs ds : List Char) :
    readDigits base acc (cs ++ ds) = (readDigits base acc cs).bind (readDigits base · ds) := by
  induction cs generalizing acc with
  | nil => rfl
  | cons c cs ih =>
    rw [cons_append, readDigits, readDigits]
    cases digitValue base c with
    | none => rfl
    | some d => exact ih _

lemma readDigits_toDigits {base : Nat} (hlo : 1 < base) (hhi : base ≤ 16) (n : Nat) :
    readDigits base 0 (Nat.toDigits base n) = some n := by
  induction n using Nat.strong_induction_on with
  | _ n ih =>
    by_cases hn : n < base
    · rw [Nat.toDigits_of_lt_base hn]
      simp [readDigits, digitValue_digitChar base hhi n hn]
    · have hmod : n % base < base := Nat.mod_lt n (by omega)
      have hdiv : n / base < n := Nat.div_lt_self (by omega) hlo
      rw [Nat.toDigits_of_base_le hlo (by omega), readDigits_append, ih (n / base) hdiv]
      simp only [bind_some, readDigits, digitValue_digitChar base hhi _ hmod, some.injEq]
      exact Nat.div_add_mod' n base

lemma readDigits_eq_some_iff {base acc n : Nat} {ds : List Char} : readDigits base acc ds = some n ↔
    ∃ vs : List Nat, ds.map (digitValue base) = vs.map some ∧
    Nat.ofDigits base (vs.reverse ++ [acc]) = n := by
  induction ds generalizing acc with
  | nil => simp [readDigits]
  | cons d ds ih =>
    rw [readDigits]
    cases hd : digitValue base d with
    | none => simp [hd, map_eq_cons_iff, eq_comm]
    | some v =>
      have hnext (vs : List Nat) : Nat.ofDigits base ((v :: vs).reverse ++ [acc]) =
          Nat.ofDigits base (vs.reverse ++ [acc * base + v]) := by
        simp only [reverse_cons, append_assoc, Nat.ofDigits_append, Nat.ofDigits_singleton,
          length_singleton]
        rw [pow_one, Nat.add_comm v, Nat.mul_comm base]
      simp only [bind_some, ih, ← hnext]
      constructor
      · rintro ⟨vs, hvs, rfl⟩
        exact ⟨v :: vs, by simp [hd, hvs], rfl⟩
      · rintro ⟨vs, hvs, rfl⟩
        obtain ⟨w, vs, rfl, hw, hvs⟩ := map_eq_cons_iff.1 hvs.symm
        obtain rfl : w = v := by simpa [hd] using hw
        exact ⟨vs, hvs.symm, rfl⟩

lemma toList_repr (n : Nat) : n.repr.toList = Nat.toDigits 10 n := by simp

lemma isDigit_of_mem_repr {n : Nat} {c : Char} (h : c ∈ n.repr.toList) : isDigit c := by
  rw [toList_repr] at h
  induction n using Nat.strong_induction_on with
  | _ n ih =>
    by_cases hn : n < 10
    · rw [Nat.toDigits_of_lt_base hn, mem_singleton] at h
      exact h ▸ isDigit_digitChar n hn
    · rw [Nat.toDigits_of_base_le (by omega) (by omega), mem_append, mem_singleton] at h
      rcases h with h | rfl
      · exact ih (n / 10) (by omega) h
      · exact isDigit_digitChar _ (Nat.mod_lt n (by omega))

lemma repr_eq_cons (n : Nat) : ∃ c cs, n.repr.toList = c :: cs ∧ isDigit c := by
  cases h : n.repr.toList with
  | nil =>
    rw [toList_repr] at h
    exact absurd h Nat.toDigits_ne_nil
  | cons c cs => exact ⟨c, cs, rfl, isDigit_of_mem_repr (n := n) (by simp [h])⟩

lemma unsigned?_repr (n : Nat) : unsigned? 10 n.repr.toList = some n := by
  obtain ⟨c, cs, h, -⟩ := repr_eq_cons n
  have hread := readDigits_toDigits (by omega : 1 < 10) (by omega) n
  rw [← toList_repr, h] at hread
  rw [h, unsigned?, hread]
  simp

lemma natural?_repr {n limit : Nat} (h : n ≤ limit) : natural? 10 limit n.repr.toList = some n := by
  have hread := unsigned?_repr n
  obtain ⟨c, cs, hc, hdigit⟩ := repr_eq_cons n
  rw [hc] at hread ⊢
  unfold natural?
  split
  · next heq =>
    obtain ⟨rfl, -⟩ := cons.inj heq
    simp [isDigit] at hdigit
  · simp [hread, h]

lemma integer64?_decimal (v : Int64) : integer64? (decimal v.toInt).toList = some v := by
  have hlo := v.le_toInt
  have hhi := v.toInt_lt
  unfold decimal
  split
  · next hneg =>
    have hbound : v.toInt.natAbs ≤ UInt64.size / 2 := by
      simp only [UInt64.size]
      omega
    have hval : Int64.ofInt (-(v.toInt.natAbs : Int)) = v := by
      rw [show -(v.toInt.natAbs : Int) = v.toInt by omega, Int64.ofInt_toInt]
    rw [String.toList_append]
    change (((unsigned? 10 v.toInt.natAbs.repr.toList).filter (· ≤ UInt64.size / 2)).map fun n =>
      Int64.ofInt (-n)) = some v
    rw [unsigned?_repr, filter_some, if_pos (by simpa using hbound)]
    exact congrArg some hval
  · next hpos =>
    have hbound : v.toInt.natAbs ≤ UInt64.size / 2 - 1 := by
      simp only [UInt64.size]
      omega
    have hval : Int64.ofNat v.toInt.natAbs = v := by
      rw [← Int64.ofInt_eq_ofNat, show ((v.toInt.natAbs : Nat) : Int) = v.toInt by omega,
        Int64.ofInt_toInt]
    have hread := natural?_repr hbound
    obtain ⟨c, cs, hc, hdigit⟩ := repr_eq_cons v.toInt.natAbs
    rw [hc] at hread ⊢
    unfold integer64?
    split
    · next heq =>
      obtain ⟨rfl, -⟩ := cons.inj heq
      simp [isDigit] at hdigit
    · simp [hread, hval]

end Resolvent.Text
