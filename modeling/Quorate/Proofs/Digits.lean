/-
Decimal digits: what is written of a natural number is its digits, the first of which is a zero only
if it is the last too, and they read back as the number. Selectors are written in them.
-/
import Quorate.Chain.Selector
import Mathlib.Data.List.Induction

namespace Quorate

/-! ## Digits of a number -/

theorem isDigit_of_mem_digits {n : Nat} {c : Char} (h : c ∈ Nat.toDigits 10 n) : c.isDigit = true :=
  Nat.isDigit_of_mem_toDigits (by decide) (by decide) h

theorem toNat_of_isDigit {c : Char} (h : c.isDigit = true) : 48 ≤ c.toNat ∧ c.toNat ≤ 57 := by
  unfold Char.isDigit at h
  rw [Bool.and_eq_true, decide_eq_true_eq, decide_eq_true_eq] at h
  exact ⟨UInt32.le_iff_toNat_le.1 h.1, UInt32.le_iff_toNat_le.1 h.2⟩

/-- A number is its digits, taken one after the other from the left. -/
theorem foldl_digits (n : Nat) :
    ((Nat.toDigits 10 n).map (·.toNat - 48)).foldl (fun m d => m * 10 + d) 0 = n := by
  have hfold := Nat.ofDigitChars_ten_toDigits (n := n)
  rw [Nat.ofDigitChars_eq_foldl] at hfold
  rw [List.foldl_map]
  simpa only [Nat.mul_comm, Char.reduceToNat] using hfold

/-- A zero in front stands alone. -/
theorem eq_nil_of_digits_eq_zero_cons {n : Nat} {cs : List Char} (h : Nat.toDigits 10 n = '0' :: cs) :
    cs = [] := by
  induction n using Nat.strongRecOn generalizing cs with
  | _ n ih =>
    rw [Nat.toDigits_eq_if (by decide)] at h
    split at h
    · exact (List.cons.inj h).2.symm
    · rename_i hlarge
      -- the digits in front are those of a smaller number, which is not zero
      cases hfront : Nat.toDigits 10 (n / 10) with
      | nil => exact absurd hfront Nat.toDigits_ne_nil
      | cons c front =>
        rw [hfront] at h
        obtain ⟨rfl, -⟩ := List.cons.inj h
        obtain rfl := ih (n / 10) (by omega) hfront
        have hzero := foldl_digits (n / 10)
        rw [hfront] at hzero
        simp at hzero
        omega

/-- The values of digits do not start with a zero either, unless it stands alone. -/
theorem map_digits_ne_zero_cons (n d : Nat) (ds : List Nat) :
    (Nat.toDigits 10 n).map (·.toNat - 48) ≠ 0 :: d :: ds := by
  intro h
  cases hcs : Nat.toDigits 10 n with
  | nil => exact absurd hcs Nat.toDigits_ne_nil
  | cons c cs =>
    rw [hcs, List.map_cons, List.cons.injEq] at h
    have hmem : c ∈ Nat.toDigits 10 n := hcs ▸ List.mem_cons_self ..
    obtain ⟨hlow, hhigh⟩ := toNat_of_isDigit (isDigit_of_mem_digits hmem)
    have hc : c.toNat = '0'.toNat := by simp; omega
    rw [Char.toNat_inj.1 hc] at hcs
    rw [eq_nil_of_digits_eq_zero_cons hcs] at h
    simp at h

/-- Digits are those of the number that they stand for, if they do not start with a needless zero. -/
theorem map_digits_foldl {ds : List Nat} (hne : ds ≠ []) (hsmall : ∀ d ∈ ds, d < 10)
    (hzero : ∀ d rest, ds ≠ 0 :: d :: rest) :
    (Nat.toDigits 10 (ds.foldl (fun n d => n * 10 + d) 0)).map (·.toNat - 48) = ds := by
  induction ds using List.reverseRecOn with
  | nil => exact absurd rfl hne
  | append_singleton ds d ih =>
    have hd : d < 10 := hsmall d (by simp)
    rw [List.foldl_append, List.foldl_cons, List.foldl_nil]
    by_cases hnil : ds = []
    · subst hnil
      simp [Nat.toDigits_of_lt_base hd, Nat.toNat_digitChar_sub_48_of_lt_ten hd]
    · have hfront : ∀ e rest, ds ≠ 0 :: e :: rest := fun e rest h => hzero e (rest ++ [d]) (by simp [h])
      have ih := ih hnil (fun e he => hsmall e (by simp [he])) hfront
      generalize ds.foldl (fun n d => n * 10 + d) 0 = v at ih ⊢
      have hv : 0 < v := by
        refine Nat.pos_of_ne_zero fun hv => hzero d [] ?_
        rw [← ih, hv]
        rfl
      rw [Nat.mul_comm, ← Nat.toDigits_append_toDigits (by decide) hv hd, List.map_append, ih,
        Nat.toDigits_of_lt_base hd]
      simp [Nat.toNat_digitChar_sub_48_of_lt_ten hd]

/-! ## Selectors -/

namespace Selector

theorem le_ofDigitChars (cs : List Char) (n : Nat) : n ≤ Nat.ofDigitChars 10 cs n := by
  induction cs generalizing n with
  | nil => exact Nat.le_of_eq Nat.ofDigitChars_nil.symm
  | cons c cs ih =>
    rw [Nat.ofDigitChars_cons]
    have := ih (10 * n + (c.toNat - '0'.toNat))
    omega

/-- Digits are read to their end exactly when they are digits and what they stand for fits. -/
theorem readDigits_eq_ok : ∀ {cs : List Char} {n : Nat} {u : UInt64}, n < UInt64.size →
    (readDigits n cs = .ok u ↔
      (∀ c ∈ cs, c.isDigit = true) ∧ Nat.ofDigitChars 10 cs n = u.toNat)
  | [], n, u, h => by
    rw [Nat.ofDigitChars_nil, readDigits, Except.ok.injEq, ← UInt64.toNat_inj,
      UInt64.toNat_ofNat_of_lt' h]
    simp
  | c :: cs, n, u, h => by
    rw [Nat.ofDigitChars_cons, Nat.mul_comm, List.forall_mem_cons]
    unfold readDigits
    by_cases hc : c.isDigit = true
    · rw [if_pos hc]
      by_cases hnext : n * 10 + (c.toNat - 48) < UInt64.size
      · simp only [if_pos hnext, hc, true_and]
        exact readDigits_eq_ok hnext
      · -- what digits stand for does not get less on the way
        simp only [if_neg hnext, reduceCtorEq, false_iff, not_and]
        intro _ heq
        have hle := le_ofDigitChars cs (n * 10 + (c.toNat - '0'.toNat))
        have hfits := u.toNat_lt
        exact hnext (Nat.lt_of_le_of_lt (heq ▸ hle) hfits)
    · simp [hc]

/-- Whether a text denotes a chain: between blanks it has digits, behind a plus sign if need be, that
stand for the number of the chain. -/
def Denotes (s : String) (chain : Selector) : Prop :=
  ∃ ds, ds ≠ [] ∧ (∀ c ∈ ds, c.isDigit = true) ∧ Nat.ofDigitChars 10 ds 0 = chain.id.toNat ∧
    (Text.trim s.toList = ds ∨ Text.trim s.toList = '+' :: ds)

theorem map_mk_eq_ok {x : Except Fault UInt64} {chain : Selector} :
    mk <$> x = .ok chain ↔ x = .ok chain.id := by
  cases x with
  | error _ => exact iff_of_false nofun nofun
  | ok u =>
    show Except.ok (mk u) = .ok chain ↔ _
    rw [Except.ok.injEq, Except.ok.injEq]
    exact ⟨congrArg id, ext⟩

/-- A selector is read from the texts that denote it, and from no other. -/
theorem parse_eq_ok {s : String} {chain : Selector} : parse s = .ok chain ↔ Denotes s chain := by
  have hread : ∀ {cs}, mk <$> readDigits 0 cs = .ok chain ↔
      (∀ c ∈ cs, c.isDigit = true) ∧ Nat.ofDigitChars 10 cs 0 = chain.id.toNat := fun {cs} => by
    rw [map_mk_eq_ok, readDigits_eq_ok (by decide)]
  unfold parse Denotes
  generalize Text.trim s.toList = cs
  split
  · refine iff_of_false nofun ?_
    rintro ⟨ds, hne, _, _, rfl | h⟩
    · exact hne rfl
    · cases h
  · rename_i c cs
    rw [hread]
    constructor
    · rintro ⟨hdigits, hvalue⟩
      exact ⟨c :: cs, nofun, hdigits, hvalue, .inr rfl⟩
    · rintro ⟨ds, _, hdigits, hvalue, rfl | h⟩
      · -- a plus sign is no digit
        cases hdigits '+' (List.mem_cons_self ..)
      · cases h
        exact ⟨hdigits, hvalue⟩
  · rename_i hempty hsigned
    rw [hread]
    constructor
    · rintro ⟨hdigits, hvalue⟩
      exact ⟨cs, hempty, hdigits, hvalue, .inl rfl⟩
    · rintro ⟨ds, hne, hdigits, hvalue, rfl | rfl⟩
      · exact ⟨hdigits, hvalue⟩
      · obtain ⟨d, ds, rfl⟩ := List.exists_cons_of_ne_nil hne
        exact absurd rfl (hsigned d ds)

theorem not_isBlank_of_isDigit {c : Char} (h : c.isDigit = true) : Text.isBlank c = false := by
  obtain ⟨hlow, hhigh⟩ := toNat_of_isDigit h
  unfold Text.isBlank
  generalize c.toNat = n at hlow hhigh
  grind [Text.inRanges, Text.blankRanges]

theorem dropWhile_isBlank {cs : List Char} (h : ∀ c ∈ cs, Text.isBlank c = false) :
    cs.dropWhile Text.isBlank = cs := by
  cases cs with
  | nil => rfl
  | cons c cs => rw [List.dropWhile_cons, h c (List.mem_cons_self ..)]; rfl

theorem trim_of_not_blank {cs : List Char} (h : ∀ c ∈ cs, Text.isBlank c = false) :
    Text.trim cs = cs := by
  unfold Text.trim
  rw [dropWhile_isBlank h, dropWhile_isBlank fun c hc => h c (List.mem_reverse.1 hc),
    List.reverse_reverse]

theorem toList_toString (chain : Selector) :
    (toString chain).toList = Nat.toDigits 10 chain.id.toNat := by
  show (toString chain.id.toNat).toList = _
  rw [Nat.toString_eq_repr, Nat.toList_repr]

theorem denotes_toString (chain : Selector) : Denotes (toString chain) chain := by
  refine ⟨Nat.toDigits 10 chain.id.toNat, Nat.toDigits_ne_nil, fun c => isDigit_of_mem_digits,
    Nat.ofDigitChars_ten_toDigits, .inl ?_⟩
  rw [toList_toString]
  exact trim_of_not_blank fun c hc => not_isBlank_of_isDigit (isDigit_of_mem_digits hc)

/-- A selector is read from its text. -/
theorem parse_toString (chain : Selector) : parse (toString chain) = .ok chain :=
  parse_eq_ok.2 (denotes_toString chain)

theorem toString_injective {a b : Selector} (h : toString a = toString b) : a = b := by
  have := (parse_toString a).symm.trans ((congrArg parse h).trans (parse_toString b))
  exact Except.ok.inj this

end Selector

end Quorate
