/-
Multiplicity: how often the digests of a row count in the root above it. A repeated digest at the
end of an odd layer counts twice, and so does all that stands below it. The counts depend on the
length of the row alone. Two rows of one length under one root hold the same digests with these
counts, unless a pair of one tree collides with a pair in the same layer of the other: siblings may
have changed places all over the tree, but joined digests are joined from the same two.
-/
import Quorate.Proofs.Merkle.Pairs
import Mathlib.Data.List.Perm.Basic

namespace Quorate.Merkle

/-- A list with every item as often in a row as its weight says. -/
def spread {α : Type} : List Nat → List α → List α
  | w :: ws, a :: l => List.replicate w a ++ spread ws l
  | _, _ => []

/-! ## Spreading -/

section Spread

variable {α β : Type}

theorem spread_map (f : α → β) : ∀ (ws : List Nat) (l : List α),
    spread ws (l.map f) = (spread ws l).map f
  | [], _ => rfl
  | _ :: _, [] => rfl
  | w :: ws, a :: l => by
    simp only [List.map_cons, spread, spread_map f ws l, List.map_append, List.map_replicate]

theorem spread_append : ∀ {ws : List Nat} {l : List α} (vs : List Nat) (m : List α),
    ws.length = l.length → spread (ws ++ vs) (l ++ m) = spread ws l ++ spread vs m
  | [], [], _, _, _ => rfl
  | w :: ws, a :: l, vs, m, h => by
    simp only [List.cons_append, spread, spread_append vs m (Nat.succ.inj h), List.append_assoc]

/-- To repeat the last item is to count it by both weights. -/
theorem spread_repeat_last {ws : List Nat} {l : List α} (v w : Nat) (a : α)
    (h : ws.length = l.length) :
    spread (ws ++ [v + w]) (l ++ [a]) = spread (ws ++ [v, w]) (l ++ [a, a]) := by
  rw [spread_append _ _ h, spread_append _ _ h]
  simp only [spread, List.append_nil, List.replicate_add]

theorem mem_of_mem_spread {a : α} : ∀ {ws : List Nat} {l : List α}, a ∈ spread ws l → a ∈ l
  | [], _, h => by cases h
  | _ :: _, [], h => by cases h
  | w :: ws, b :: l, h => by
    rcases List.mem_append.1 h with h | h
    · rw [List.eq_of_mem_replicate h]
      exact List.mem_cons_self ..
    · exact List.mem_cons_of_mem _ (mem_of_mem_spread h)

/-- What was in order before is in order when spread. -/
theorem pairwise_spread {R : α → α → Prop} (hrefl : ∀ a, R a a) :
    ∀ {ws : List Nat} {l : List α}, l.Pairwise R → (spread ws l).Pairwise R
  | [], _, _ => .nil
  | _ :: _, [], _ => .nil
  | w :: ws, a :: l, h => by
    obtain ⟨hhead, htail⟩ := List.pairwise_cons.1 h
    refine List.pairwise_append.2 ⟨?_, pairwise_spread hrefl htail, fun x hx y hy => ?_⟩
    · exact List.pairwise_replicate.2 (.inr (hrefl a))
    · rw [List.eq_of_mem_replicate hx]
      exact hhead y (mem_of_mem_spread hy)

/-- Lists of one length that are the same when spread by positive weights are the same. -/
theorem eq_of_spread_eq : ∀ {ws : List Nat} {l m : List α}, (∀ w ∈ ws, 0 < w) →
    ws.length = l.length → l.length = m.length → spread ws l = spread ws m → l = m
  | [], [], [], _, _, _, _ => rfl
  | w :: ws, a :: l, b :: m, hpos, hlength, hlength', h => by
    obtain ⟨hw, hpos⟩ := List.forall_mem_cons.1 hpos
    obtain ⟨hab, hrest⟩ := List.append_inj h (by simp)
    have hab : a = b := List.eq_of_mem_replicate (hab ▸ List.mem_replicate.2 ⟨hw.ne', rfl⟩)
    rw [hab, eq_of_spread_eq hpos (Nat.succ.inj hlength) (Nat.succ.inj hlength') hrest]

end Spread

/-! ## One layer down -/

/-- Each weight for both digests of a pair. -/
def doubled (ws : List Nat) : List Nat := ws.flatMap fun w => [w, w]

theorem length_doubled (ws : List Nat) : (doubled ws).length = 2 * ws.length := by
  unfold doubled
  rw [List.length_flatMap]
  simp [Nat.mul_comm]

theorem mem_doubled {w : Nat} {ws : List Nat} : w ∈ doubled ws ↔ w ∈ ws := by
  simp [doubled]

theorem replicate_both_perm (w : Nat) (p : Digest × Digest) :
    ((List.replicate w p).flatMap both).Perm (List.replicate w p.1 ++ List.replicate w p.2) := by
  have h := List.flatMap_append_perm (List.replicate w p) (fun p => [p.1]) (fun p => [p.2])
  rw [← List.map_eq_flatMap, ← List.map_eq_flatMap, List.map_replicate, List.map_replicate] at h
  exact h.symm

/-- To spread pairs is to spread their digests by the same weights. -/
theorem flatMap_both_spread_perm : ∀ (ws : List Nat) (ps : List (Digest × Digest)),
    ((spread ws ps).flatMap both).Perm (spread (doubled ws) (ps.flatMap both))
  | [], _ => .nil
  | _ :: _, [] => .nil
  | w :: ws, p :: ps => by
    have h := (replicate_both_perm w p).append (flatMap_both_spread_perm ws ps)
    simpa only [spread, doubled, both, List.flatMap_cons, List.flatMap_append, List.cons_append,
      List.nil_append, List.append_assoc] using h

theorem evened_concat {row : List Digest} {d : Digest} (h : (row ++ [d]).length % 2 = 1) :
    evened (row ++ [d]) = row ++ [d, d] := by
  unfold evened
  rw [if_pos h, List.getLast?_concat]
  exact List.append_assoc ..

/-- A layer of even length is spread as the row was before its last digest was repeated, whose
weight is then that of both copies. -/
theorem exists_weights_evened {n : Nat} {ws : List Nat} (hn : 0 < n)
    (hlength : ws.length = n + n % 2) (hpos : ∀ w ∈ ws, 0 < w) :
    ∃ vs : List Nat, vs.length = n ∧ (∀ v ∈ vs, 0 < v) ∧
      ∀ row : List Digest, row.length = n → spread vs row = spread ws (evened row) := by
  by_cases hodd : n % 2 = 1
  · obtain ⟨us, tail, rfl, hus⟩ : ∃ us tail, ws = us ++ tail ∧ us.length = n - 1 :=
      ⟨ws.take (n - 1), ws.drop (n - 1), (List.take_append_drop _ _).symm, by simp; omega⟩
    have htail : tail.length = 2 := by
      rw [List.length_append] at hlength
      omega
    obtain ⟨u, v, rfl⟩ := List.length_eq_two.1 htail
    refine ⟨us ++ [u + v], by simp; omega, ?_, fun row hrow => ?_⟩
    · simp only [List.forall_mem_append, List.forall_mem_cons] at hpos ⊢
      exact ⟨hpos.1, by omega, List.forall_mem_nil _⟩
    · have hne : row ≠ [] := List.ne_nil_of_length_pos (hrow ▸ hn)
      obtain ⟨init, last, rfl⟩ : ∃ init last, row = init ++ [last] :=
        ⟨row.dropLast, row.getLast hne, (List.dropLast_append_getLast hne).symm⟩
      have hinit : us.length = init.length := by
        rw [List.length_append, List.length_singleton] at hrow
        omega
      rw [evened_concat (by rwa [hrow])]
      exact spread_repeat_last u v last hinit
  · refine ⟨ws, by omega, hpos, fun row hrow => ?_⟩
    unfold evened
    rw [if_neg (by rwa [hrow])]

/-! ## Two trees -/

/-- A pair of a layer of one tree collides with a pair of the same layer of the other. -/
def LayersCollide (layers layers' : List (List Digest)) : Prop :=
  ∃ (k : Nat) (layer layer' : List Digest), layers[k]? = some layer ∧ layers'[k]? = some layer' ∧
    ∃ a b a' b', Paired layer a b ∧ Paired layer' a' b' ∧ Collide a b a' b'

theorem LayersCollide.below {layers layers' : List (List Digest)} (h : LayersCollide layers layers')
    (layer layer' : List Digest) : LayersCollide (layer :: layers) (layer' :: layers') := by
  obtain ⟨k, above, above', hk, hk', hcollide⟩ := h
  exact ⟨k + 1, above, above', hk, hk', hcollide⟩

theorem both_perm {p q : Digest × Digest} (h : s(p.1, p.2) = s(q.1, q.2)) :
    (both p).Perm (both q) := by
  obtain ⟨a, b⟩ := p
  obtain ⟨a', b'⟩ := q
  rcases Sym2.eq_iff.1 h with ⟨rfl, rfl⟩ | ⟨rfl, rfl⟩
  · exact .refl _
  · exact .swap _ _ _

/-- Pairs that join to the same digests, in any order, are made of the same digests, where no two of
them collide. -/
theorem flatMap_both_perm {ps qs : List (Digest × Digest)}
    (hjoin : (ps.map fun p => join p.1 p.2).Perm (qs.map fun q => join q.1 q.2))
    (hfree : ∀ p ∈ ps, ∀ q ∈ qs, ¬ Collide p.1 p.2 q.1 q.2) :
    (ps.flatMap both).Perm (qs.flatMap both) := by
  -- put the second pairs into the order of the first
  have hqs : List.Forall₂ (fun d q => d = join q.1 q.2) (qs.map fun q => join q.1 q.2) qs := by
    rw [List.forall₂_map_left_iff, List.forall₂_same]
    exact fun _ _ => rfl
  obtain ⟨rs, hrs, hperm⟩ := List.perm_comp_forall₂ hjoin hqs
  rw [List.forall₂_map_left_iff] at hrs
  replace hfree : ∀ p ∈ ps, ∀ q ∈ rs, ¬ Collide p.1 p.2 q.1 q.2 :=
    fun p hp q hq => hfree p hp q (hperm.subset hq)
  refine List.Perm.trans ?_ (hperm.flatMap_right both)
  clear hjoin hqs hperm
  induction hrs with
  | nil => exact .nil
  | @cons p q ps rs hpq _ ih =>
    have hsame : s(p.1, p.2) = s(q.1, q.2) := by
      by_contra hdiffer
      exact hfree p (List.mem_cons_self ..) q (List.mem_cons_self ..) ⟨hdiffer, hpq⟩
    rw [List.flatMap_cons, List.flatMap_cons]
    refine (both_perm hsame).append (ih fun p hp q hq => ?_)
    exact hfree p (List.mem_cons_of_mem _ hp) q (List.mem_cons_of_mem _ hq)

/-- Layers whose parents are the same digests, counted by some weights, are the same digests counted
by these weights, where no pair of one collides with a pair of the other. -/
theorem spread_doubled_perm {ws : List Nat} {layer layer' : List Digest}
    (heven : layer.length % 2 = 0) (heven' : layer'.length % 2 = 0)
    (hparents : (spread ws (parents layer)).Perm (spread ws (parents layer')))
    (hfree : ∀ a b a' b', Paired layer a b → Paired layer' a' b' → ¬ Collide a b a' b') :
    (spread (doubled ws) layer).Perm (spread (doubled ws) layer') := by
  rw [← map_join_pairs, ← map_join_pairs, spread_map, spread_map] at hparents
  have hpairs := flatMap_both_perm hparents fun p hp q hq =>
    hfree _ _ _ _ (mem_pairs.1 (mem_of_mem_spread hp)) (mem_pairs.1 (mem_of_mem_spread hq))
  have h := flatMap_both_spread_perm ws (pairs layer)
  have h' := flatMap_both_spread_perm ws (pairs layer')
  rw [flatMap_both_pairs heven] at h
  rw [flatMap_both_pairs heven'] at h'
  exact h.symm.trans (hpairs.trans h')

/-- Rows of one length under one root hold the same digests, counted by some positive weights,
unless the trees collide. The induction is on the climb, and the weights come down with it. -/
theorem exists_weights_of_root_eq (row : List Digest) {row' : List Digest}
    (hlength : row.length = row'.length) (hroot : (climb row).2 = (climb row').2)
    (hfree : ¬ LayersCollide (climb row).1 (climb row').1) :
    ∃ ws : List Nat, ws.length = row.length ∧ (∀ w ∈ ws, 0 < w) ∧
      (spread ws row).Perm (spread ws row') := by
  induction row using climb.induct generalizing row' with
  | case1 =>
    obtain rfl := List.length_eq_zero_iff.1 hlength.symm
    exact ⟨[], rfl, List.forall_mem_nil _, .nil⟩
  | case2 d =>
    obtain ⟨d', rfl⟩ := List.length_eq_one_iff.1 hlength.symm
    have hd : d = d' := by rwa [climb, climb] at hroot
    exact ⟨[1], rfl, by simp, hd ▸ .refl _⟩
  | case3 a b rest layer =>
    rename_i ih
    obtain ⟨a', tail', rfl⟩ := List.exists_cons_of_length_eq_add_one hlength.symm
    obtain ⟨b', rest', rfl⟩ := List.exists_cons_of_length_eq_add_one (Nat.succ.inj hlength).symm
    have hlayer : evened (a :: b :: rest) = layer := rfl
    obtain ⟨layer', hlayer'⟩ : ∃ layer', evened (a' :: b' :: rest') = layer' := ⟨_, rfl⟩
    have hlengths : layer.length = layer'.length := by
      rw [← hlayer, ← hlayer', length_evened, length_evened, hlength]
    have heven : layer.length % 2 = 0 := even_length_evened _
    rw [layers_climb, layers_climb, hlayer, hlayer'] at hfree
    rw [root_climb, root_climb, hlayer, hlayer'] at hroot
    obtain ⟨us, hus, hpos, hparents⟩ := ih (by rw [length_parents, length_parents, hlengths]) hroot
      fun h => hfree (h.below layer layer')
    have hlayers : (spread (doubled us) layer).Perm (spread (doubled us) layer') :=
      spread_doubled_perm heven (hlengths ▸ heven) hparents fun _ _ _ _ hp hp' hcollide =>
        hfree ⟨0, layer, layer', rfl, rfl, _, _, _, _, hp, hp', hcollide⟩
    -- the weights of the layers are those of the rows, but for the last digest of odd rows
    have hdoubled :
        (doubled us).length = (a :: b :: rest).length + (a :: b :: rest).length % 2 := by
      rw [length_doubled, hus, length_parents, ← length_evened, hlayer]
      omega
    obtain ⟨ws, hws, hpos', hevened⟩ := exists_weights_evened (Nat.succ_pos _) hdoubled
      fun w hw => hpos w (mem_doubled.1 hw)
    refine ⟨ws, hws, hpos', ?_⟩
    rw [hevened _ rfl, hevened _ hlength.symm, hlayer, hlayer']
    exact hlayers

end Quorate.Merkle
