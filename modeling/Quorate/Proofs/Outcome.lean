/-
Outcomes: what a program of faults and acts comes to. A program without acts ends in a value or in
the first fault on its way; a step on a world ends in one of the two and leaves a world behind.
-/
import Quorate.Error
import Quorate.Proofs.Sorting
import Mathlib.Data.List.Forall2
import Mathlib.Data.List.Perm.Basic

namespace Quorate

/-! ## Programs without acts -/

section Except

variable {ε ε' α β : Type}

theorem bind_eq_ok {x : Except ε α} {f : α → Except ε β} {b : β} :
    (x >>= f) = .ok b ↔ ∃ a, x = .ok a ∧ f a = .ok b := by
  cases x <;> simp [bind, Except.bind]

theorem bind_eq_error {x : Except ε α} {f : α → Except ε β} {e : ε} :
    (x >>= f) = .error e ↔ x = .error e ∨ ∃ a, x = .ok a ∧ f a = .error e := by
  cases x <;> simp [bind, Except.bind]

theorem map_eq_error {x : Except ε α} {f : α → β} {e : ε} :
    f <$> x = .error e ↔ x = .error e := by
  cases x <;> simp [Functor.map, Except.map]

theorem mapError_eq_ok {x : Except ε α} {f : ε → ε'} {a : α} :
    x.mapError f = .ok a ↔ x = .ok a := by
  cases x <;> simp [Except.mapError]

theorem mapError_eq_error {x : Except ε α} {f : ε → ε'} {e : ε'} :
    x.mapError f = .error e ↔ ∃ e', x = .error e' ∧ f e' = e := by
  cases x <;> simp [Except.mapError]

theorem isOk_mapError (x : Except ε α) (f : ε → ε') : (x.mapError f).isOk = x.isOk := by
  cases x <;> rfl

@[simp] theorem ok_bind (a : α) (f : α → Except ε β) : (Except.ok a >>= f) = f a := rfl

@[simp] theorem map_ok (f : α → β) (a : α) : f <$> (Except.ok a : Except ε α) = .ok (f a) := rfl

/-- A list goes through when each of its elements does. -/
theorem mapM_eq_ok {f : α → Except ε β} :
    ∀ {l : List α} {bs : List β},
      l.mapM f = .ok bs ↔ List.Forall₂ (fun a b => f a = .ok b) l bs
  | [], bs => by
    rw [List.mapM_nil, List.forall₂_nil_left_iff]
    constructor
    · intro h; cases h; rfl
    · rintro rfl; rfl
  | a :: l, bs => by
    rw [List.mapM_cons, bind_eq_ok, List.forall₂_cons_left_iff]
    constructor
    · rintro ⟨b, hb, h⟩
      obtain ⟨bs', hbs, h⟩ := bind_eq_ok.1 h
      cases h
      exact ⟨b, bs', hb, mapM_eq_ok.1 hbs, rfl⟩
    · rintro ⟨b, bs', hb, hbs, rfl⟩
      refine ⟨b, hb, ?_⟩
      rw [mapM_eq_ok.2 hbs]
      rfl

/-- Each element of a list that goes through has its result among the results. -/
theorem mem_of_mapM_eq_ok {f : α → Except ε β} {l : List α} {bs : List β} (h : l.mapM f = .ok bs)
    {a : α} (ha : a ∈ l) : ∃ b ∈ bs, f a = .ok b := by
  rw [mapM_eq_ok] at h
  induction h with
  | nil => cases ha
  | cons hb _ ih =>
    rcases List.mem_cons.1 ha with rfl | ha
    · exact ⟨_, List.mem_cons_self .., hb⟩
    · obtain ⟨b, hmem, heq⟩ := ih ha
      exact ⟨b, List.mem_cons_of_mem _ hmem, heq⟩

/-- Each result of a list that goes through comes from one of its elements. -/
theorem exists_of_mapM_eq_ok {f : α → Except ε β} {l : List α} {bs : List β}
    (h : l.mapM f = .ok bs) {b : β} (hb : b ∈ bs) : ∃ a ∈ l, f a = .ok b := by
  rw [mapM_eq_ok] at h
  induction h with
  | nil => cases hb
  | cons ha _ ih =>
    rcases List.mem_cons.1 hb with rfl | hb
    · exact ⟨_, List.mem_cons_self .., ha⟩
    · obtain ⟨a, hmem, heq⟩ := ih hb
      exact ⟨a, List.mem_cons_of_mem _ hmem, heq⟩

/-- Each element has its result at its own index. -/
theorem getElem?_of_mapM_eq_ok {f : α → Except ε β} {l : List α} {bs : List β}
    (h : l.mapM f = .ok bs) {i : Nat} {a : α} (ha : l[i]? = some a) :
    ∃ b, bs[i]? = some b ∧ f a = .ok b := by
  rw [mapM_eq_ok] at h
  induction h generalizing i with
  | nil => cases ha
  | cons hb _ ih =>
    cases i with
    | zero =>
      cases ha
      exact ⟨_, rfl, hb⟩
    | succ i => exact ih ha

theorem length_of_mapM_eq_ok {f : α → Except ε β} {l : List α} {bs : List β}
    (h : l.mapM f = .ok bs) : l.length = bs.length := (mapM_eq_ok.1 h).length_eq

/-- A list that goes through does so in any order, and the results come in another order too. -/
theorem mapM_perm {f : α → Except ε β} {l l' : List α} {bs : List β} (hl : l.Perm l')
    (h : l.mapM f = .ok bs) : ∃ bs', l'.mapM f = .ok bs' ∧ bs.Perm bs' := by
  rw [mapM_eq_ok] at h
  obtain ⟨bs', hbs', hperm⟩ := List.perm_comp_forall₂ hl.symm h
  exact ⟨bs', mapM_eq_ok.2 hbs', hperm.symm⟩

/-- A list goes through with good results when each of its elements does. -/
theorem exists_mapM_eq_ok {f : α → Except ε β} {P : β → Prop} : ∀ {l : List α},
    (∃ bs, l.mapM f = .ok bs ∧ ∀ b ∈ bs, P b) ↔ ∀ a ∈ l, ∃ b, f a = .ok b ∧ P b
  | [] => by
    refine iff_of_true ⟨[], rfl, ?_⟩ ?_ <;> intro _ h <;> cases h
  | a :: l => by
    rw [List.forall_mem_cons, ← exists_mapM_eq_ok]
    simp only [mapM_eq_ok, List.forall₂_cons_left_iff]
    constructor
    · rintro ⟨_, ⟨b, bs, hb, hbs, rfl⟩, hgood⟩
      obtain ⟨hgood, hrest⟩ := List.forall_mem_cons.1 hgood
      exact ⟨⟨b, hb, hgood⟩, bs, hbs, hrest⟩
    · rintro ⟨⟨b, hb, hgood⟩, bs, hbs, hrest⟩
      exact ⟨b :: bs, ⟨b, bs, hb, hbs, rfl⟩, List.forall_mem_cons.2 ⟨hgood, hrest⟩⟩

theorem exists_mapM_iff {f : α → Except ε β} {l : List α} :
    (∃ bs, l.mapM f = .ok bs) ↔ ∀ a ∈ l, ∃ b, f a = .ok b := by
  simpa using exists_mapM_eq_ok (f := f) (P := fun _ => True) (l := l)

theorem mapM_append_eq_ok {f : α → Except ε β} {l l' : List α} {bs bs' : List β}
    (h : l.mapM f = .ok bs) (h' : l'.mapM f = .ok bs') : (l ++ l').mapM f = .ok (bs ++ bs') :=
  mapM_eq_ok.2 (List.rel_append (mapM_eq_ok.1 h) (mapM_eq_ok.1 h'))

/-- A list whose elements are kept beside their results goes through when the list does. -/
theorem mapM_keyed {f : α → Except ε β} : ∀ l : List α,
    l.mapM (fun a => (fun b => (b, a)) <$> f a) = (fun bs => bs.zip l) <$> l.mapM f
  | [] => rfl
  | a :: l => by
    rw [List.mapM_cons, List.mapM_cons, mapM_keyed l]
    cases f a with
    | error e => rfl
    | ok b => cases l.mapM f <;> rfl

/-- A list that does not go through fails at the first of its elements that fails. -/
theorem mapM_eq_error {f : α → Except ε β} {e : ε} : ∀ {l : List α}, l.mapM f = .error e ↔
    ∃ before a after bs, l = before ++ a :: after ∧ before.mapM f = .ok bs ∧ f a = .error e
  | [] => by
    constructor
    · intro h
      cases h
    · rintro ⟨before, a, after, bs, hl, _⟩
      cases before <;> cases hl
  | a :: l => by
    rw [List.mapM_cons, bind_eq_error]
    constructor
    · rintro (h | ⟨b, hb, h⟩)
      · exact ⟨[], a, l, [], rfl, rfl, h⟩
      · rcases bind_eq_error.1 h with h | ⟨_, _, h⟩
        · obtain ⟨before, a', after, bs, rfl, hbs, ha'⟩ := mapM_eq_error.1 h
          exact ⟨a :: before, a', after, b :: bs, rfl,
            mapM_eq_ok.2 (.cons hb (mapM_eq_ok.1 hbs)), ha'⟩
        · cases h
    · rintro ⟨before, a', after, bs, hl, hbs, ha'⟩
      cases before with
      | nil =>
        cases hl
        exact .inl ha'
      | cons _ before =>
        cases hl
        obtain ⟨b, bs', hb, hbs', _⟩ := List.forall₂_cons_left_iff.1 (mapM_eq_ok.1 hbs)
        refine .inr ⟨b, hb, bind_eq_error.2 (.inl ?_)⟩
        exact mapM_eq_error.2 ⟨before, a', after, bs', rfl, mapM_eq_ok.2 hbs', ha'⟩

theorem exists_of_mapM_eq_error {f : α → Except ε β} {e : ε} {l : List α}
    (h : l.mapM f = .error e) : ∃ a ∈ l, f a = .error e := by
  obtain ⟨before, a, after, _, rfl, _, ha⟩ := mapM_eq_error.1 h
  exact ⟨a, List.mem_append_right before (List.mem_cons_self ..), ha⟩

/-- The first element that fails, by its index. -/
theorem mapM_eq_error_iff_getElem? {f : α → Except ε β} {e : ε} {l : List α} :
    l.mapM f = .error e ↔ ∃ (i : Nat) (a : α), l[i]? = some a ∧
      (∀ j < i, ∀ b, l[j]? = some b → ∃ c, f b = .ok c) ∧ f a = .error e := by
  rw [mapM_eq_error]
  constructor
  · rintro ⟨before, a, after, bs, rfl, hbs, ha⟩
    refine ⟨before.length, a, by simp, fun j hj b hb => ?_, ha⟩
    rw [List.getElem?_append_left hj] at hb
    exact exists_mapM_iff.1 ⟨bs, hbs⟩ b (List.mem_of_getElem? hb)
  · rintro ⟨i, a, hi, hbefore, ha⟩
    obtain ⟨hlt, rfl⟩ := List.getElem?_eq_some_iff.1 hi
    obtain ⟨bs, hbs⟩ := exists_mapM_iff.2 fun b (hb : b ∈ l.take i) => by
      obtain ⟨j, hj, rfl⟩ := List.mem_take_iff_getElem.1 hb
      have hj := Nat.lt_min.1 hj
      exact hbefore j hj.1 _ (List.getElem?_eq_getElem hj.2)
    exact ⟨l.take i, l[i], l.drop (i + 1), bs, by simp, hbs, ha⟩

/-- A list that ascends by a key fails at the least key with which an element fails. -/
theorem mapM_eq_error_of_ascending_key {κ : Type} [Ord κ] [Std.TransOrd κ] (key : α → κ)
    {f : α → Except ε β} {e : ε} {l : List α}
    (h : l.Pairwise fun a b => compare (key a) (key b) = .lt) : l.mapM f = .error e ↔
      ∃ a ∈ l, (∀ b ∈ l, compare (key b) (key a) = .lt → ∃ c, f b = .ok c) ∧ f a = .error e := by
  have hsplit := fun a => exists_split_of_ascending_key key h (a := a)
    (P := fun b => ∃ c, f b = .ok c)
  rw [mapM_eq_error]
  constructor
  · rintro ⟨before, a, after, bs, hl, hbs, ha⟩
    obtain ⟨hmem, hless⟩ := (hsplit a).1 ⟨before, after, hl, exists_mapM_iff.1 ⟨bs, hbs⟩⟩
    exact ⟨a, hmem, hless, ha⟩
  · rintro ⟨a, hmem, hless, ha⟩
    obtain ⟨before, after, hl, hbefore⟩ := (hsplit a).2 ⟨hmem, hless⟩
    obtain ⟨bs, hbs⟩ := exists_mapM_iff.2 hbefore
    exact ⟨before, a, after, bs, hl, hbs, ha⟩

/-- Where the results of a list are split, the list can be split alike. -/
theorem exists_split_of_mapM_eq_ok {f : α → Except ε β} {l : List α} {before after : List β} {b : β}
    (h : l.mapM f = .ok (before ++ b :: after)) : ∃ before' a after', l = before' ++ a :: after' ∧
      before'.mapM f = .ok before ∧ f a = .ok b ∧ after'.mapM f = .ok after := by
  rw [mapM_eq_ok] at h
  have hbefore := List.forall₂_take_append l before (b :: after) h
  have hrest := List.forall₂_drop_append l before (b :: after) h
  obtain ⟨a, after', ha, hafter, hdrop⟩ := List.forall₂_cons_right_iff.1 hrest
  refine ⟨l.take before.length, a, after', ?_, mapM_eq_ok.2 hbefore, ha, mapM_eq_ok.2 hafter⟩
  rw [← hdrop, List.take_append_drop]

end Except

/-! ## Steps on a world -/

variable {ε σ α β : Type}

/-- What a program of acts comes to on a world: a value or a fault, and the world that it leaves. -/
def outcome (x : ExceptT ε (StateM σ) α) (w : σ) : Except ε α × σ := x.run.run w

@[simp] theorem outcome_pure (a : α) (w : σ) :
    outcome (pure a : ExceptT ε (StateM σ) α) w = (.ok a, w) := rfl

@[simp] theorem outcome_lift (x : Except ε α) (w : σ) :
    outcome (liftM x : ExceptT ε (StateM σ) α) w = (x, w) := rfl

theorem outcome_bind (x : ExceptT ε (StateM σ) α) (f : α → ExceptT ε (StateM σ) β) (w : σ) :
    outcome (x >>= f) w = match outcome x w with
      | (.ok a, w') => outcome (f a) w'
      | (.error e, w') => (.error e, w') := by
  unfold outcome
  rw [ExceptT.run_bind, StateT.run_bind]
  rcases x.run.run w with ⟨_ | a, w'⟩ <;> rfl

theorem outcome_map (f : α → β) (x : ExceptT ε (StateM σ) α) (w : σ) :
    outcome (f <$> x) w = (f <$> (outcome x w).1, (outcome x w).2) := by
  unfold outcome
  rw [ExceptT.run_map, StateT.run_map]
  rfl

theorem outcome_lift_bind (x : Except ε α) (f : α → ExceptT ε (StateM σ) β) (w : σ) :
    outcome (liftM x >>= f) w = match x with
      | .ok a => outcome (f a) w
      | .error e => (.error e, w) := by
  rw [outcome_bind, outcome_lift]
  cases x <;> rfl

/-- One step and then another come to a value when both do, the second on the world that the first
leaves. -/
theorem outcome_bind_eq_ok {x : ExceptT ε (StateM σ) α} {f : α → ExceptT ε (StateM σ) β} {b : β}
    {w w'' : σ} : outcome (x >>= f) w = (.ok b, w'') ↔
      ∃ a w', outcome x w = (.ok a, w') ∧ outcome (f a) w' = (.ok b, w'') := by
  rw [outcome_bind]
  rcases outcome x w with ⟨_ | a, w'⟩ <;> simp

theorem outcome_lift_bind_eq_ok {x : Except ε α} {f : α → ExceptT ε (StateM σ) β} {b : β}
    {w w' : σ} : outcome (liftM x >>= f) w = (.ok b, w') ↔
      ∃ a, x = .ok a ∧ outcome (f a) w = (.ok b, w') := by
  rw [outcome_lift_bind]
  cases x <;> simp

/-- A step does not end in a fault that none of its parts ends in. -/
theorem outcome_lift_bind_ne_error {x : Except ε α} {f : α → ExceptT ε (StateM σ) β} {w : σ} {e : ε}
    (hx : x ≠ .error e) (hf : ∀ a, (outcome (f a) w).1 ≠ .error e) :
    (outcome (liftM x >>= f) w).1 ≠ .error e := by
  rw [outcome_lift_bind]
  cases x with
  | error e' =>
    intro he
    cases he
    exact hx rfl
  | ok a => exact hf a

/-- What a collaborator complains of is the fault of the step. -/
theorem outcome_asking (act : Act σ α) (w : σ) :
    outcome (Ceremony.asking act) w =
      ((outcome act w).1.mapError .collaborator, (outcome act w).2) := rfl

theorem outcome_asking_eq_ok {act : Act σ α} {a : α} {w w' : σ} :
    outcome (Ceremony.asking act) w = (.ok a, w') ↔ outcome act w = (.ok a, w') := by
  rw [outcome_asking]
  rcases outcome act w with ⟨_ | a', w''⟩ <;> simp [Except.mapError]

theorem outcome_bind_eq_error {x : ExceptT ε (StateM σ) α} {f : α → ExceptT ε (StateM σ) β} {e : ε}
    {w w'' : σ} : outcome (x >>= f) w = (.error e, w'') ↔ outcome x w = (.error e, w'') ∨
      ∃ a w', outcome x w = (.ok a, w') ∧ outcome (f a) w' = (.error e, w'') := by
  rw [outcome_bind]
  rcases outcome x w with ⟨_ | a, w'⟩ <;> simp

theorem outcome_mapM_cons_eq_ok {f : α → ExceptT ε (StateM σ) β} {a : α} {l : List α} {bs : List β}
    {w w'' : σ} : outcome ((a :: l).mapM f) w = (.ok bs, w'') ↔
      ∃ b w' bs', outcome (f a) w = (.ok b, w') ∧ outcome (l.mapM f) w' = (.ok bs', w'') ∧
        bs = b :: bs' := by
  rw [List.mapM_cons, outcome_bind_eq_ok]
  constructor
  · rintro ⟨b, w', hb, h⟩
    obtain ⟨bs', w₁, hbs, h⟩ := outcome_bind_eq_ok.1 h
    cases h
    exact ⟨b, w', bs', hb, hbs, rfl⟩
  · rintro ⟨b, w', bs', hb, hbs, rfl⟩
    exact ⟨b, w', hb, outcome_bind_eq_ok.2 ⟨bs', w'', hbs, rfl⟩⟩

theorem outcome_mapM_congr {f g : α → ExceptT ε (StateM σ) β} :
    ∀ {l : List α} {w : σ}, (∀ a ∈ l, ∀ v, outcome (f a) v = outcome (g a) v) →
      outcome (l.mapM f) w = outcome (l.mapM g) w
  | [], _, _ => rfl
  | a :: l, w, h => by
    obtain ⟨ha, hl⟩ := List.forall_mem_cons.1 h
    simp only [List.mapM_cons, outcome_bind, ha]
    rcases outcome (g a) w with ⟨_ | b, v⟩
    · rfl
    · simp only [outcome_mapM_congr hl]

/-- Steps in turn end in the fault of the first that fails, on the world that those before it
leave. -/
theorem outcome_mapM_eq_error {f : α → ExceptT ε (StateM σ) β} {e : ε} {w' : σ} :
    ∀ {l : List α} {w : σ}, outcome (l.mapM f) w = (.error e, w') ↔
      ∃ before a after bs v, l = before ++ a :: after ∧
        outcome (before.mapM f) w = (.ok bs, v) ∧ outcome (f a) v = (.error e, w')
  | [], w => by simp
  | a :: l, w => by
    rw [List.mapM_cons, outcome_bind_eq_error]
    constructor
    · rintro (h | ⟨b, w₁, hb, h⟩)
      · exact ⟨[], a, l, [], w, rfl, rfl, h⟩
      · rcases outcome_bind_eq_error.1 h with h | ⟨_, _, _, h⟩
        · obtain ⟨before, a', after, bs, v, rfl, hbs, ha'⟩ := outcome_mapM_eq_error.1 h
          exact ⟨a :: before, a', after, b :: bs, v, rfl,
            outcome_mapM_cons_eq_ok.2 ⟨b, w₁, bs, hb, hbs, rfl⟩, ha'⟩
        · cases h
    · rintro ⟨before, a', after, bs, v, hl, hbs, ha'⟩
      cases before with
      | nil =>
        cases hl
        cases hbs
        exact .inl ha'
      | cons b₀ before =>
        cases hl
        obtain ⟨b, w₁, bs', hb, hbs', _⟩ := outcome_mapM_cons_eq_ok.1 hbs
        refine .inr ⟨b, w₁, hb, outcome_bind_eq_error.2 (.inl ?_)⟩
        exact outcome_mapM_eq_error.2 ⟨before, a', after, bs', v, rfl, hbs', ha'⟩

/-- Steps that come to their values on any world do so in turn. -/
theorem outcome_mapM_of_forall₂ {f : α → ExceptT ε (StateM σ) β} {l : List α} {bs : List β}
    (h : List.Forall₂ (fun a b => ∀ w, ∃ w', outcome (f a) w = (.ok b, w')) l bs) (w : σ) :
    ∃ w', outcome (l.mapM f) w = (.ok bs, w') := by
  induction h generalizing w with
  | nil => exact ⟨w, rfl⟩
  | cons ha _ ih =>
    obtain ⟨w₁, ha⟩ := ha w
    obtain ⟨w₂, hrest⟩ := ih w₁
    refine ⟨w₂, ?_⟩
    rw [List.mapM_cons, outcome_bind_eq_ok]
    exact ⟨_, w₁, ha, outcome_bind_eq_ok.2 ⟨_, w₂, hrest, rfl⟩⟩

end Quorate
