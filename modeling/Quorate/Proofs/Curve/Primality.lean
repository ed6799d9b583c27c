/-
Both orders of the curve are prime, by Lucas's test: some base comes back to one at the number less
one, and not before. The test needs the prime factors of the number less one, and the large ones
among them are shown to be prime in the same way.
-/
import Quorate.Proofs.Curve.Residue
import Mathlib.NumberTheory.LucasPrimality
import Mathlib.Tactic.NormNum.Prime

namespace Quorate.Curve

/-- A base passes Lucas's test with numbers whose product is the modulus less one. -/
def Passes {p : Nat} [NeZero p] (base : Fin p) (factors : List Nat) : Prop :=
  p ≤ 2 ^ 256 ∧ factors.prod + 1 = p ∧ power 1 256 base (p - 1) = 1 ∧
    ∀ q ∈ factors, power 1 256 base ((p - 1) / q) ≠ 1

instance {p : Nat} [NeZero p] (base : Fin p) (factors : List Nat) :
    Decidable (Passes base factors) := inferInstanceAs (Decidable (_ ∧ _))

theorem prime_of_passes {p : Nat} [NeZero p] (base : Fin p) (factors : List Nat)
    (hprime : ∀ q ∈ factors, q.Prime) (hpasses : Passes base factors) : p.Prime := by
  obtain ⟨hp, hprod, hone, hne⟩ := hpasses
  have hpower : ∀ {e}, e ≤ p - 1 → (power 1 256 base e = 1 ↔ residue base ^ e = 1) := by
    intro e he
    have hpos : 0 < p := Nat.pos_of_neZero p
    have hbits : e < 2 ^ 256 := by omega
    rw [← residue_power hbits, ← residue_one, residue_inj]
  refine lucas_primality p (residue base) ((hpower le_rfl).1 hone) fun q hq hdvd => ?_
  rw [ne_eq, ← hpower (Nat.div_le_self _ _)]
  -- a prime that divides the product is one of the factors
  rw [← hprod, Nat.add_sub_cancel, hq.prime.dvd_prod_iff] at hdvd
  obtain ⟨q', hmem, hqq'⟩ := hdvd
  obtain rfl := (Nat.prime_dvd_prime_iff_eq hq (hprime q' hmem)).1 hqq'
  exact hne q hmem

theorem prime_fieldOrder : fieldOrder.Prime := by
  have h₁ : Nat.Prime 173378833005251801 :=
    prime_of_passes 6 [2, 2, 2, 5, 5, 2621, 24809, 13331831] (by norm_num) (by decide +kernel)
  have h₂ : Nat.Prime 22149492674086928081353 :=
    prime_of_passes 5 [173378833005251801, 2, 2, 2, 3, 5323]
      (List.forall_mem_cons.2 ⟨h₁, by norm_num⟩) (by decide +kernel)
  have h₃ : Nat.Prime 132896956044521568488119 :=
    prime_of_passes 6 [22149492674086928081353, 2, 3]
      (List.forall_mem_cons.2 ⟨h₂, by norm_num⟩) (by decide +kernel)
  have h₄ : Nat.Prime 255515944373312847190720520512484175977 :=
    prime_of_passes 3
      [2, 2, 2, 7, 7, 11, 1627, 2657, 4423, 41201, 96557, 7240687, 107590001]
      (by norm_num) (by decide +kernel)
  have h₅ : Nat.Prime 205115282021455665897114700593932402728804164701536103180137503955397371 :=
    prime_of_passes 10
      [132896956044521568488119, 255515944373312847190720520512484175977, 2, 3, 5, 29, 29, 31, 7723]
      (List.forall_mem_cons.2 ⟨h₃, List.forall_mem_cons.2 ⟨h₄, by norm_num⟩⟩) (by decide +kernel)
  exact prime_of_passes 3
    [205115282021455665897114700593932402728804164701536103180137503955397371, 2, 3, 7, 13441]
    (List.forall_mem_cons.2 ⟨h₅, by norm_num⟩) (by decide +kernel)

theorem prime_groupOrder : groupOrder.Prime := by
  have h₁ : Nat.Prime 297159362677 :=
    prime_of_passes 2 [2, 2, 3, 3, 11, 461, 1627771] (by norm_num) (by decide +kernel)
  have h₂ : Nat.Prime 545358713 :=
    prime_of_passes 5 [2, 2, 2, 41, 59, 28181] (by norm_num) (by decide +kernel)
  have h₃ : Nat.Prime 29047611873442575647497758179 :=
    prime_of_passes 2 [297159362677, 545358713, 2, 293, 305873]
      (List.forall_mem_cons.2 ⟨h₁, List.forall_mem_cons.2 ⟨h₂, by norm_num⟩⟩) (by decide +kernel)
  have h₄ : Nat.Prime 341948486974166000522343609283189 :=
    prime_of_passes 2 [29047611873442575647497758179, 2, 2, 3, 3, 3, 109]
      (List.forall_mem_cons.2 ⟨h₃, by norm_num⟩) (by decide +kernel)
  have h₅ : Nat.Prime 174723607534414371449 :=
    prime_of_passes 3 [2, 2, 2, 17, 59, 4051, 120233, 44706919] (by norm_num) (by decide +kernel)
  have h₆ : Nat.Prime 107361793816595537 :=
    prime_of_passes 3 [2, 2, 2, 2, 16699, 85831, 4681609] (by norm_num) (by decide +kernel)
  have h : ∀ q ∈ [341948486974166000522343609283189, 174723607534414371449, 107361793816595537],
      q.Prime := List.forall_mem_cons.2 ⟨h₄, List.forall_mem_cons.2 ⟨h₅, by simpa using h₆⟩⟩
  exact prime_of_passes 7
    ([341948486974166000522343609283189, 174723607534414371449, 107361793816595537] ++
      [2, 2, 2, 2, 2, 2, 3, 149, 631])
    (List.forall_mem_append.2 ⟨h, by norm_num⟩) (by decide +kernel)

instance : Fact fieldOrder.Prime := ⟨prime_fieldOrder⟩

instance : Fact groupOrder.Prime := ⟨prime_groupOrder⟩

end Quorate.Curve
