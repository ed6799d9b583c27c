/-
Sorting by a key: what comes out is in the order of the keys, with the items of one key as they were
before. No other list is such. Items that their keys tell apart have only one order by key, however
they were mixed before.
-/
import Mathlib.Data.List.Sort

namespace Quorate

theorem mem_iff_of_filter_eq {α κ : Type} [DecidableEq κ] (key : α → κ) {l l' : List α}
    (hsame : ∀ k, l.filter (key · = k) = l'.filter (key · = k)) (a : α) : a ∈ l ↔ a ∈ l' := by
  have hmem := congrArg (a ∈ ·) (hsame (key a))
  simpa [List.mem_filter] using hmem

variable {α κ : Type} [Ord κ] [Std.TransOrd κ] (key : α → κ)

theorem isLE_trans_key (a b c : α) (hab : (compare (key a) (key b)).isLE = true)
    (hbc : (compare (key b) (key c)).isLE = true) : (compare (key a) (key c)).isLE = true :=
  Std.TransCmp.isLE_trans hab hbc

theorem isLE_total_key (a b : α) :
    ((compare (key a) (key b)).isLE || (compare (key b) (key a)).isLE) = true := by
  have hswap : compare (key b) (key a) = (compare (key a) (key b)).swap := Std.OrientedCmp.eq_swap
  rw [hswap]
  cases compare (key a) (key b) <;> rfl

theorem isLE_of_mem_cons {l : List α} {a b : α}
    (h : (a :: l).Pairwise fun a b => (compare (key a) (key b)).isLE) (hb : b ∈ a :: l) :
    (compare (key a) (key b)).isLE = true := by
  rcases List.mem_cons.1 hb with rfl | hb
  · have hself : compare (key b) (key b) = .eq := Std.ReflCmp.compare_self
    rw [hself]
    rfl
  · exact (List.pairwise_cons.1 h).1 b hb

theorem pairwise_mergeSort_key (l : List α) :
    (l.mergeSort fun a b => (compare (key a) (key b)).isLE).Pairwise
      fun a b => (compare (key a) (key b)).isLE :=
  List.pairwise_mergeSort (isLE_trans_key key) (isLE_total_key key) l

/-- The items of one key keep their order. -/
theorem filter_mergeSort_key [DecidableEq κ] (l : List α) (k : κ) :
    (l.mergeSort fun a b => (compare (key a) (key b)).isLE).filter (key · = k) =
      l.filter (key · = k) := by
  have hself : compare k k = .eq := Std.ReflCmp.compare_self
  have hties : (l.filter (key · = k)).Pairwise fun a b => (compare (key a) (key b)).isLE := by
    refine List.pairwise_of_forall_mem_list fun a ha b hb => ?_
    rw [of_decide_eq_true (List.mem_filter.1 ha).2, of_decide_eq_true (List.mem_filter.1 hb).2,
      hself]
    rfl
  have hkept := List.sublist_mergeSort (isLE_trans_key key) (isLE_total_key key) hties
    List.filter_sublist
  have hfiltered := hkept.filter (key · = k)
  simp only [List.filter_filter, Bool.and_self] at hfiltered
  exact (hfiltered.eq_of_length ((List.mergeSort_perm l _).filter _).length_eq.symm).symm

/-- In a list that ascends by a key the items in front of one are those with a lesser key. -/
theorem exists_split_of_ascending_key {l : List α}
    (h : l.Pairwise fun a b => compare (key a) (key b) = .lt) {a : α} {P : α → Prop} :
    (∃ before after, l = before ++ a :: after ∧ ∀ b ∈ before, P b) ↔
      a ∈ l ∧ ∀ b ∈ l, compare (key b) (key a) = .lt → P b := by
  constructor
  · rintro ⟨before, after, rfl, hbefore⟩
    have hbehind := (List.pairwise_cons.1 (List.pairwise_append.1 h).2.1).1
    refine ⟨List.mem_append_right before (List.mem_cons_self ..), fun b hb hlt => ?_⟩
    rcases List.mem_append.1 hb with hb | hb
    · exact hbefore b hb
    · exfalso
      rcases List.mem_cons.1 hb with rfl | hb
      · have hself : compare (key b) (key b) = .eq := Std.ReflCmp.compare_self
        rw [hself] at hlt
        cases hlt
      · rw [Std.OrientedCmp.gt_of_lt (hbehind b hb)] at hlt
        cases hlt
  · rintro ⟨ha, hless⟩
    obtain ⟨before, after, rfl⟩ := List.append_of_mem ha
    have hfront := (List.pairwise_append.1 h).2.2
    refine ⟨before, after, rfl, fun b hb => hless b (List.mem_append_left _ hb) ?_⟩
    exact hfront b hb a (List.mem_cons_self ..)

/-- In an ascending list the items in front of one are those that are less. -/
theorem exists_split_of_ascending {l : List κ} (h : l.Pairwise fun a b => compare a b = .lt) {a : κ}
    {P : κ → Prop} : (∃ before after, l = before ++ a :: after ∧ ∀ b ∈ before, P b) ↔
      a ∈ l ∧ ∀ b ∈ l, compare b a = .lt → P b := exists_split_of_ascending_key id h

variable [Std.LawfulEqOrd κ] {l l' : List α}

theorem eq_of_perm_of_pairwise_key (hkey : ∀ a ∈ l, ∀ b ∈ l, key a = key b → a = b)
    (h : l.Pairwise fun a b => (compare (key a) (key b)).isLE)
    (h' : l'.Pairwise fun a b => (compare (key a) (key b)).isLE) (hperm : l.Perm l') : l = l' := by
  refine hperm.eq_of_pairwise (fun a b ha hb hab hba => ?_) h h'
  have heq : compare (key a) (key b) = .eq := Std.OrientedCmp.isLE_antisymm hab hba
  exact hkey a ha b (hperm.mem_iff.2 hb) (Std.LawfulEqCmp.eq_of_compare heq)

theorem mergeSort_key_eq_of_perm (hkey : ∀ a ∈ l, ∀ b ∈ l, key a = key b → a = b)
    (hperm : l.Perm l') : (l.mergeSort fun a b => (compare (key a) (key b)).isLE) =
      l'.mergeSort fun a b => (compare (key a) (key b)).isLE := by
  refine eq_of_perm_of_pairwise_key key (fun a ha b hb => ?_) (pairwise_mergeSort_key key l)
    (pairwise_mergeSort_key key l') ?_
  · exact hkey a (List.mem_mergeSort.1 ha) b (List.mem_mergeSort.1 hb)
  · exact (List.mergeSort_perm l _).trans (hperm.trans (List.mergeSort_perm l' _).symm)

/-- There is no other list in the order of the keys that has the items of each key in the same
order. -/
theorem eq_of_filter_eq_of_pairwise_key [DecidableEq κ] : ∀ {l l' : List α},
    (l.Pairwise fun a b => (compare (key a) (key b)).isLE) →
    (l'.Pairwise fun a b => (compare (key a) (key b)).isLE) →
    (∀ k, l.filter (key · = k) = l'.filter (key · = k)) → l = l'
  | [], [], _, _, _ => rfl
  | [], b :: _, _, _, hsame =>
    absurd ((mem_iff_of_filter_eq key hsame b).2 (List.mem_cons_self ..)) List.not_mem_nil
  | a :: _, [], _, _, hsame =>
    absurd ((mem_iff_of_filter_eq key hsame a).1 (List.mem_cons_self ..)) List.not_mem_nil
  | a :: l, b :: l', h, h', hsame => by
    have hmem := mem_iff_of_filter_eq key hsame
    -- neither head has a lesser key than the other, so both are the first of one key
    have hkey : key a = key b := Std.LawfulEqCmp.eq_of_compare (Std.OrientedCmp.isLE_antisymm
      (isLE_of_mem_cons key h ((hmem b).2 (List.mem_cons_self ..)))
      (isLE_of_mem_cons key h' ((hmem a).1 (List.mem_cons_self ..))))
    have hheads := hsame (key a)
    rw [List.filter_cons_of_pos (by simp), List.filter_cons_of_pos (by simp [hkey])] at hheads
    obtain rfl := (List.cons.inj hheads).1
    refine congrArg (a :: ·) (eq_of_filter_eq_of_pairwise_key (List.pairwise_cons.1 h).2
      (List.pairwise_cons.1 h').2 fun k => ?_)
    have hk := hsame k
    rw [List.filter_cons, List.filter_cons] at hk
    split at hk
    · exact (List.cons.inj hk).2
    · exact hk

end Quorate
