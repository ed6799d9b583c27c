/-
Rounds: a tree is built in rounds. As long as a row has more than one digest, a round repeats the
last digest of an odd row, stores the row as a layer, and joins the pairs of the layer to the next
row. A row shrinks to half of its length, rounded up, so there are as many rounds as the binary
logarithm of the number of leaves says, rounded up. Layers have even length, so a proof finds a
sibling at each of their positions, and the highest layer is the pair that the root joins.
-/
import Quorate.Proofs.Merkle.Completeness
import Mathlib.Data.Nat.Bitwise
import Mathlib.Data.Nat.Log

namespace Quorate.Merkle

/-! ## Layers and rows -/

/-- A layer holds a row: it is the row, followed by a copy of its last digest when that makes the
length even. -/
inductive LayerOf (row : List Digest) : List Digest → Prop
  | even : row.length % 2 = 0 → LayerOf row row
  | odd {last : Digest} : row.length % 2 = 1 → row.getLast? = some last → LayerOf row (row ++ [last])

/-- A row has the digests that the pairs of a layer join to, in their order, and no others. -/
structure Joins (layer row : List Digest) : Prop where
  length : 2 * row.length = layer.length
  joined : ∀ j d, row[j]? = some d →
    ∃ a b, layer[2 * j]? = some a ∧ layer[2 * j + 1]? = some b ∧ d = join a b

theorem layerOf_evened (row : List Digest) : LayerOf row (evened row) := by
  unfold evened
  split
  · rename_i hodd
    have hne : row ≠ [] := by
      rintro rfl
      cases hodd
    rw [List.getLast?_eq_some_getLast hne]
    exact .odd hodd (List.getLast?_eq_some_getLast hne)
  · exact .even (by omega)

theorem exists_pair_of_getElem?_parents : ∀ (layer : List Digest) {j : Nat} {d : Digest},
    (parents layer)[j]? = some d →
      ∃ a b, layer[2 * j]? = some a ∧ layer[2 * j + 1]? = some b ∧ d = join a b
  | [], _, _, h => by cases h
  | [_], _, _, h => by cases h
  | a :: b :: _, 0, _, h => ⟨a, b, rfl, rfl, (Option.some.inj h).symm⟩
  | _ :: _ :: rest, _ + 1, _, h => exists_pair_of_getElem?_parents rest h

theorem joins_parents {layer : List Digest} (heven : layer.length % 2 = 0) :
    Joins layer (parents layer) := by
  refine ⟨?_, fun j d => exists_pair_of_getElem?_parents layer⟩
  rw [length_parents]
  omega

/-! ## Siblings by position -/

theorem add_two_xor_one (i : Nat) : (i + 2) ^^^ 1 = (i ^^^ 1) + 2 := by
  rcases Nat.even_or_odd i with h | h
  · rw [Nat.xor_one_of_even h, Nat.xor_one_of_even (h.add even_two)]
  · rw [Nat.xor_one_of_odd h, Nat.xor_one_of_odd (h.add_even even_two)]
    have hpos : 0 < i := Nat.pos_of_ne_zero (by rintro rfl; exact Nat.not_odd_zero h)
    omega

/-- The sibling of a digest is found where the last bit of its first index is the other one. -/
theorem exists_sibling_of_idxOf? {d : Digest} : ∀ {layer : List Digest} {i : Nat},
    layer.length % 2 = 0 → layer.idxOf? d = some i →
      ∃ s, layer[i ^^^ 1]? = some s ∧ sibling? d layer = some s
  | [], _, _, h => by cases h
  | [_], _, heven, _ => by cases heven
  | a :: b :: rest, i, heven, h => by
    unfold sibling?
    by_cases ha : a = d
    · rw [List.idxOf?_cons, if_pos (beq_iff_eq.2 ha)] at h
      cases h
      exact ⟨b, rfl, if_pos ha⟩
    rw [List.idxOf?_cons, if_neg (by simpa using ha)] at h
    obtain ⟨j, hj, rfl⟩ := Option.map_eq_some_iff.1 h
    by_cases hb : b = d
    · rw [List.idxOf?_cons, if_pos (beq_iff_eq.2 hb)] at hj
      cases hj
      exact ⟨a, rfl, by rw [if_neg ha, if_pos hb]⟩
    rw [List.idxOf?_cons, if_neg (by simpa using hb)] at hj
    obtain ⟨i, hi, rfl⟩ := Option.map_eq_some_iff.1 hj
    have hrest : rest.length % 2 = 0 := by
      rw [List.length_cons, List.length_cons] at heven
      omega
    -- the first pair is passed over, so that indices are two less in the rest
    obtain ⟨s, hs, hsibling⟩ := exists_sibling_of_idxOf? hrest hi
    refine ⟨s, ?_, by rw [if_neg ha, if_neg hb, hsibling]⟩
    rw [add_two_xor_one]
    exact hs

/-! ## Rounds -/

/-- The row after a round. -/
def nextRow (row : List Digest) : List Digest := parents (evened row)

theorem length_nextRow (row : List Digest) : (nextRow row).length = (row.length + 1) / 2 := by
  unfold nextRow
  rw [length_parents, length_evened]
  omega

/-- The number of rounds that a row of two digests or more takes is one more than that of the next
row. -/
theorem clog_length_nextRow {row : List Digest} (h : 2 ≤ row.length) :
    Nat.clog 2 row.length = Nat.clog 2 (nextRow row).length + 1 := by
  rw [length_nextRow]
  exact Nat.clog_of_two_le Nat.one_lt_two h

/-- After some rounds more than one digest is left exactly if the logarithm was not yet reached. -/
theorem one_lt_length_iterate_iff (k : Nat) (row : List Digest) :
    1 < (nextRow^[k] row).length ↔ k < Nat.clog 2 row.length := by
  induction k generalizing row with
  | zero =>
    constructor
    · exact Nat.clog_pos Nat.one_lt_two
    · intro hpos
      by_contra hsmall
      have hrow : row.length ≤ 1 := Nat.le_of_not_lt hsmall
      rw [Nat.clog_of_right_le_one hrow] at hpos
      exact Nat.lt_irrefl 0 hpos
  | succ k ih =>
    rw [Function.iterate_succ_apply, ih]
    by_cases hlarge : 2 ≤ row.length
    · rw [clog_length_nextRow hlarge]
      exact Nat.succ_lt_succ_iff.symm
    · have hnext : (nextRow row).length ≤ 1 := by
        rw [length_nextRow]
        omega
      rw [Nat.clog_of_right_le_one hnext, Nat.clog_of_right_le_one (by omega)]
      omega

/-- The climb takes one round after the other, as long as more than one digest is left. -/
theorem getElem?_climb (row : List Digest) (k : Nat) : (climb row).1[k]? =
    if k < Nat.clog 2 row.length then some (evened (nextRow^[k] row)) else none := by
  induction row using climb.induct generalizing k with
  | case1 =>
    rw [climb, List.length_nil, Nat.clog_zero_right]
    rfl
  | case2 d =>
    rw [climb, List.length_singleton, Nat.clog_one_right]
    rfl
  | case3 a b rest layer =>
    rename_i ih
    have hrounds : Nat.clog 2 (a :: b :: rest).length = Nat.clog 2 (parents layer).length + 1 :=
      clog_length_nextRow (Nat.le_add_left _ _)
    rw [layers_climb, hrounds]
    cases k with
    | zero => rfl
    | succ k =>
      rw [List.getElem?_cons_succ, Function.iterate_succ_apply]
      simp only [Nat.succ_lt_succ_iff]
      exact ih k

theorem length_climb (row : List Digest) : (climb row).1.length = Nat.clog 2 row.length := by
  refine Nat.le_antisymm ?_ ?_
  · rw [← List.getElem?_eq_none_iff, getElem?_climb, if_neg (Nat.lt_irrefl _)]
  · by_contra hshort
    have hnone := List.getElem?_eq_none_iff.2 (Nat.le_refl (climb row).1.length)
    rw [getElem?_climb, if_pos (Nat.lt_of_not_le hshort)] at hnone
    cases hnone

/-- Each layer is one of the rows, evened, of which more than one digest was left. -/
theorem exists_round_of_getElem?_climb {row layer : List Digest} {k : Nat}
    (h : (climb row).1[k]? = some layer) :
    1 < (nextRow^[k] row).length ∧ layer = evened (nextRow^[k] row) := by
  rw [getElem?_climb] at h
  split at h
  · rename_i hk
    exact ⟨(one_lt_length_iterate_iff k row).2 hk, (Option.some.inj h).symm⟩
  · cases h

/-- The root joins the two digests of the highest layer. -/
theorem exists_top (row : List Digest) (h : 2 ≤ row.length) :
    ∃ a b, (climb row).1.getLast? = some [a, b] ∧ (climb row).2 = join a b := by
  induction row using climb.induct with
  | case1 => cases h
  | case2 d => exact absurd h (Nat.lt_irrefl 1)
  | case3 a b rest layer =>
    rename_i ih
    rw [layers_climb, root_climb]
    -- a pair by itself is the highest layer; of three digests or more at least two are left
    cases rest with
    | nil => exact ⟨a, b, by simp [evened, parents, climb], by simp [evened, parents, climb]⟩
    | cons c rest =>
      have hnext : 2 ≤ (parents layer).length := by
        show 2 ≤ (nextRow (a :: b :: c :: rest)).length
        rw [length_nextRow, List.length_cons, List.length_cons, List.length_cons]
        omega
      obtain ⟨x, y, hlast, hroot⟩ := ih hnext
      refine ⟨x, y, ?_, hroot⟩
      rw [List.getLast?_cons]
      show some ((climb (parents layer)).1.getLast?.getD _) = _
      rw [hlast]
      rfl

/-! ## Equal leaves -/

/-- A row of equal digests is followed by one. -/
theorem nextRow_replicate (n : Nat) (d : Digest) :
    nextRow (List.replicate n d) = List.replicate ((n + 1) / 2) (join d d) := by
  refine List.eq_replicate_iff.2 ⟨?_, fun b hb => ?_⟩
  · rw [length_nextRow, List.length_replicate]
  · obtain ⟨x, y, ⟨j, hx, hy⟩, rfl⟩ := exists_paired_of_mem_parents hb
    rw [List.eq_of_mem_replicate (mem_evened.1 (List.mem_of_getElem? hx)),
      List.eq_of_mem_replicate (mem_evened.1 (List.mem_of_getElem? hy))]

/-- Over equal leaves each round joins one digest with itself. -/
theorem root_replicate (n : Nat) (d : Digest) : (Tree.ofLeaves (List.replicate (n + 1) d)).root =
    (fun e => join e e)^[Nat.clog 2 (n + 1)] d := by
  show (climb (List.replicate (n + 1) d)).2 = _
  induction n using Nat.strong_induction_on generalizing d with
  | _ n ih =>
    cases n with
    | zero =>
      rw [zero_add, List.replicate_one, climb, Nat.clog_one_right]
      rfl
    | succ n =>
      have hrow : (climb (List.replicate (n + 2) d)).2 =
          (climb (nextRow (List.replicate (n + 2) d))).2 := root_climb d d (List.replicate n d)
      have hhalf : (n + 2 + 1) / 2 = (n + 1) / 2 + 1 := by omega
      have hrounds : Nat.clog 2 (n + 2) = Nat.clog 2 ((n + 1) / 2 + 1) + 1 := by
        rw [← hhalf]
        exact Nat.clog_of_two_le Nat.one_lt_two (Nat.le_add_left 2 n)
      rw [hrow, nextRow_replicate, hhalf, ih _ (by omega), hrounds, Function.iterate_succ_apply]

/-! ## Trees -/

/-- The shape of a tree over two leaves or more. The lowest layer holds the leaves, each layer above
another one holds what its pairs join to, and the root joins the highest. Where a digest stands in a
layer for the first time, its sibling stands at the index with the other last bit. -/
structure Shaped (leaves : List Digest) (t : Tree) : Prop where
  height : t.layers.length = Nat.clog 2 leaves.length
  even : ∀ layer ∈ t.layers, 0 < layer.length ∧ layer.length % 2 = 0
  lowest : ∃ layer, t.layers[0]? = some layer ∧ LayerOf leaves layer
  next : ∀ (k : Nat) (layer above : List Digest), t.layers[k]? = some layer →
    t.layers[k + 1]? = some above → ∃ row, Joins layer row ∧ LayerOf row above
  top : ∃ a b, t.layers.getLast? = some [a, b] ∧ t.root = join a b
  siblings : ∀ layer ∈ t.layers, ∀ d i, layer.idxOf? d = some i →
    ∃ s, layer[i ^^^ 1]? = some s ∧ sibling? d layer = some s

theorem shaped_ofLeaves {leaves : List Digest} (h : 2 ≤ leaves.length) :
    Shaped leaves (Tree.ofLeaves leaves) := by
  have heven : ∀ layer ∈ (climb leaves).1, 0 < layer.length ∧ layer.length % 2 = 0 := by
    intro layer hlayer
    obtain ⟨k, hk⟩ := List.mem_iff_getElem?.1 hlayer
    obtain ⟨hrow, rfl⟩ := exists_round_of_getElem?_climb hk
    refine ⟨?_, even_length_evened _⟩
    rw [length_evened]
    omega
  obtain ⟨above, hlayers⟩ := layers_eq_cons h
  refine ⟨length_climb leaves, heven, ⟨evened leaves, by rw [hlayers]; rfl, layerOf_evened leaves⟩,
    fun k layer above hlayer habove => ?_, exists_top leaves h, fun layer hlayer d i =>
      exists_sibling_of_idxOf? (heven layer hlayer).2⟩
  obtain ⟨_, rfl⟩ := exists_round_of_getElem?_climb hlayer
  obtain ⟨_, rfl⟩ := exists_round_of_getElem?_climb habove
  rw [Function.iterate_succ_apply']
  exact ⟨_, joins_parents (even_length_evened _), layerOf_evened _⟩

/-- A tree is built in as many rounds as it has layers, and then no more than one digest is left.
Over nothing there are no layers and the root is the zero digest; over one leaf there are none
either, and the leaf is the root. Over more there are as many as the binary logarithm of the number
of leaves, rounded up, and they have the shape of a tree. -/
theorem tree_is_built_in_rounds (leaves : List Digest) :
    (∀ k, 1 < (nextRow^[k] leaves).length ↔ k < (Tree.ofLeaves leaves).layers.length) ∧
      (leaves = [] → (Tree.ofLeaves leaves).layers = [] ∧ (Tree.ofLeaves leaves).root = .zero) ∧
      (∀ d, leaves = [d] → (Tree.ofLeaves leaves).layers = [] ∧ (Tree.ofLeaves leaves).root = d) ∧
      (2 ≤ leaves.length → Shaped leaves (Tree.ofLeaves leaves)) := by
  refine ⟨fun k => ?_, ?_, ?_, shaped_ofLeaves⟩
  · rw [one_lt_length_iterate_iff]
    exact (length_climb leaves).symm ▸ Iff.rfl
  · rintro rfl
    exact ⟨layers_of_small (by decide), by rw [Tree.ofLeaves, climb]⟩
  · rintro d rfl
    exact ⟨layers_of_small (Nat.le_refl 1), by rw [Tree.ofLeaves, climb]⟩

/-- Five leaves take three rounds: the second row has three digests, so its layer is padded again. A
single leaf takes none. -/
theorem five_leaves_take_three_rounds :
    2 ≤ ((List.range 5).map Digest.ofNat).length ∧
      (Tree.ofLeaves ((List.range 5).map Digest.ofNat)).layers.length = 3 ∧
      ¬ 1 < (nextRow^[3] ((List.range 5).map Digest.ofNat)).length ∧
      (∃ a b, (Tree.ofLeaves ((List.range 5).map Digest.ofNat)).layers.getLast? = some [a, b] ∧
        (Tree.ofLeaves ((List.range 5).map Digest.ofNat)).root = join a b) ∧
      (Tree.ofLeaves [.zero]).layers = [] ∧ (Tree.ofLeaves [.zero]).root = .zero := by
  have large : 2 ≤ ((List.range 5).map Digest.ofNat).length := by decide
  obtain ⟨hrounds, _, _, hshaped⟩ := tree_is_built_in_rounds ((List.range 5).map Digest.ofNat)
  obtain ⟨_, _, hsingle, _⟩ := tree_is_built_in_rounds [.zero]
  have hheight : (Tree.ofLeaves ((List.range 5).map Digest.ofNat)).layers.length = 3 :=
    (hshaped large).height.trans (by decide)
  refine ⟨large, hheight, fun h => ?_, (hshaped large).top, hsingle .zero rfl⟩
  exact absurd ((hrounds 3).1 h) (by rw [hheight]; decide)

end Quorate.Merkle
