/-
Programs that may come to nothing: a list goes through when each of its elements does, in whatever
order, and what each step keeps is kept by all of them.
-/
import Mathlib.Data.List.Forall2
import Mathlib.Data.List.Perm.Basic

namespace Quorate

variable {α β γ δ : Type}

theorem mapM_eq_some {f : α → Option β} : ∀ {l : List α} {bs : List β},
    l.mapM f = some bs ↔ List.Forall₂ (fun a b => f a = some b) l bs
  | [], bs => by
    rw [List.mapM_nil, List.forall₂_nil_left_iff, Option.pure_def, Option.some.injEq, eq_comm]
  | a :: l, bs => by
    rw [List.mapM_cons, List.forall₂_cons_left_iff]
    simp only [Option.bind_eq_bind, Option.bind_eq_some_iff, mapM_eq_some, Option.pure_def,
      Option.some.injEq]
    constructor
    · rintro ⟨b, hb, bs', hbs, rfl⟩
      exact ⟨b, bs', hb, hbs, rfl⟩
    · rintro ⟨b, bs', hb, hbs, rfl⟩
      exact ⟨b, hb, bs', hbs, rfl⟩

/-- Each result of a list comes from one of its elements. -/
theorem exists_of_mapM_eq_some {f : α → Option β} {l : List α} {bs : List β}
    (h : l.mapM f = some bs) {b : β} (hb : b ∈ bs) : ∃ a ∈ l, f a = some b := by
  rw [mapM_eq_some] at h
  induction h with
  | nil => cases hb
  | cons ha _ ih =>
    rcases List.mem_cons.1 hb with rfl | hb
    · exact ⟨_, List.mem_cons_self .., ha⟩
    · obtain ⟨a, hmem, heq⟩ := ih hb
      exact ⟨a, List.mem_cons_of_mem _ hmem, heq⟩

/-- Each element of a list that goes through has a result. -/
theorem exists_of_mem_of_mapM_eq_some {f : α → Option β} {l : List α} {bs : List β}
    (h : l.mapM f = some bs) {a : α} (ha : a ∈ l) : ∃ b, f a = some b := by
  rw [mapM_eq_some] at h
  induction h with
  | nil => cases ha
  | cons hb _ ih =>
    rcases List.mem_cons.1 ha with rfl | ha
    · exact ⟨_, hb⟩
    · exact ih ha

/-- Elements that are recovered one by one are recovered in a list. -/
theorem mapM_map_eq_some {f : β → Option α} {g : α → β} {l : List α}
    (h : ∀ a ∈ l, f (g a) = some a) : (l.map g).mapM f = some l := by
  rw [mapM_eq_some, List.forall₂_map_left_iff, List.forall₂_same]
  exact h

/-- Lists whose elements come to the same one by one come to the same. -/
theorem mapM_congr_forall₂ {f : α → Option γ} {g : β → Option γ} {l : List α} {m : List β}
    (h : List.Forall₂ (fun a b => f a = g b) l m) : l.mapM f = m.mapM g := by
  induction h with
  | nil => rfl
  | cons hab _ ih => rw [List.mapM_cons, List.mapM_cons, hab, ih]

theorem rel_bind {R : α → β → Prop} {S : γ → δ → Prop} {x : Option α} {y : Option β}
    {f : α → Option γ} {g : β → Option δ} (h : Option.Rel R x y)
    (hf : ∀ a b, R a b → Option.Rel S (f a) (g b)) : Option.Rel S (x >>= f) (y >>= g) := by
  cases h with
  | none => exact .none
  | some hab => exact hf _ _ hab

theorem bind_eq_of_rel {R : α → β → Prop} {x : Option α} {y : Option β} {f : α → Option γ}
    {g : β → Option γ} (h : Option.Rel R x y) (hf : ∀ a b, R a b → f a = g b) :
    x >>= f = y >>= g := by
  cases h with
  | none => rfl
  | some hab => exact hf _ _ hab

/-- Lists whose results are related one by one have related results. -/
theorem mapM_rel {R : γ → δ → Prop} {f : α → Option γ} {g : β → Option δ} {l : List α} {m : List β}
    (h : List.Forall₂ (fun a b => Option.Rel R (f a) (g b)) l m) :
    Option.Rel (List.Forall₂ R) (l.mapM f) (m.mapM g) := by
  induction h with
  | nil => exact .some .nil
  | @cons a b l m hab _ ih =>
    rw [List.mapM_cons, List.mapM_cons]
    generalize f a = x, g b = y at hab
    cases hab with
    | none => exact .none
    | some hxy =>
      generalize l.mapM f = xs, m.mapM g = ys at ih
      cases ih with
      | none => exact .none
      | some hs => exact .some (.cons hxy hs)

/-- A list in another order comes to the same results in another order. -/
theorem mapM_rel_perm (f : α → Option β) {l m : List α} (hperm : l.Perm m) :
    Option.Rel List.Perm (l.mapM f) (m.mapM f) := by
  have hsome : ∀ {l m : List α} {bs : List β}, l.Perm m → l.mapM f = some bs →
      ∃ cs, m.mapM f = some cs ∧ bs.Perm cs := by
    intro l m bs hperm h
    obtain ⟨cs, hcs, hperm'⟩ := List.perm_comp_forall₂ hperm.symm (mapM_eq_some.1 h)
    exact ⟨cs, mapM_eq_some.2 hcs, hperm'.symm⟩
  cases hl : l.mapM f with
  | some bs =>
    obtain ⟨cs, hm, hbs⟩ := hsome hperm hl
    rw [hm]
    exact .some hbs
  | none =>
    cases hm : m.mapM f with
    | none => exact .none
    | some cs =>
      obtain ⟨bs, hbs, _⟩ := hsome hperm.symm hm
      cases hl.symm.trans hbs

/-- What each step keeps is kept by all of them. -/
theorem foldlM_keeps {P : β → Prop} {step : β → α → Option β} :
    ∀ {l : List α} {b b' : β}, (∀ a ∈ l, ∀ c c', P c → step c a = some c' → P c') → P b →
      l.foldlM step b = some b' → P b'
  | [], _, _, _, hb, h => by
    cases h
    exact hb
  | a :: l, b, b', hstep, hb, h => by
    obtain ⟨ha, hl⟩ := List.forall_mem_cons.1 hstep
    obtain ⟨c, hc, h⟩ := Option.bind_eq_some_iff.1 h
    exact foldlM_keeps hl (ha b c hb hc) h

end Quorate
