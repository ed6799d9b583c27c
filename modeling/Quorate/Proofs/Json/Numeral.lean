/-
Numerals of JSON: what is written of an integer is read as that integer, and a natural number has no
other spelling as one.
-/
import Quorate.Json.Number
import Quorate.Proofs.Digits
import Quorate.Proofs.Utf8
import Mathlib.Data.List.TakeWhile

namespace Quorate.Json

open Text

namespace Numeral

/-- The values of the digits of a number. -/
def digitValues (n : Nat) : List Nat := (Nat.toDigits 10 n).map (·.toNat - 48)

/-- The numeral that is written of an integer. -/
def ofInt : Int → Numeral
  | .ofNat n => ⟨false, digitValues n, none, none⟩
  | .negSucc n => ⟨true, digitValues (n + 1), none, none⟩

theorem value_digitValues (n : Nat) : value (digitValues n) = n := foldl_digits n

theorem integer?_ofInt (i : Int) : (ofInt i).integer? = some i := by
  cases i with
  | ofNat n => simp [integer?, ofInt, value_digitValues]
  | negSucc n => simp [integer?, ofInt, value_digitValues, Int.negSucc_eq]

theorem natBelow?_ofInt {n bound : Nat} (h : n < bound) : (ofInt n).natBelow? bound = some n := by
  unfold natBelow?
  rw [integer?_ofInt]
  exact if_pos h

/-! ## Bytes -/

/-- The bytes of the digits of a number. -/
def digitBytes (n : Nat) : List UInt8 := utf8 (Nat.toDigits 10 n)

theorem utf8_of_digits {cs : List Char} (h : ∀ c ∈ cs, c.isDigit = true) :
    utf8 cs = cs.map fun c => UInt8.ofNat c.toNat := by
  induction cs with
  | nil => rfl
  | cons c cs ih =>
    obtain ⟨hc, hcs⟩ := List.forall_mem_cons.1 h
    have hsmall : c.toNat < 128 := by
      have := toNat_of_isDigit hc
      omega
    rw [utf8_cons, utf8EncodeChar_of_lt hsmall, ih hcs]
    rfl

theorem digitBytes_eq (n : Nat) :
    digitBytes n = (Nat.toDigits 10 n).map fun c => UInt8.ofNat c.toNat :=
  utf8_of_digits fun _ => isDigit_of_mem_digits

theorem digitBytes_ne_nil (n : Nat) : digitBytes n ≠ [] := by
  rw [digitBytes_eq]
  simp

theorem toNat_of_mem_digitBytes {n : Nat} {b : UInt8} (h : b ∈ digitBytes n) :
    48 ≤ b.toNat ∧ b.toNat ≤ 57 := by
  rw [digitBytes_eq, List.mem_map] at h
  obtain ⟨c, hc, rfl⟩ := h
  have := toNat_of_isDigit (isDigit_of_mem_digits hc)
  rw [UInt8.toNat_ofNat']
  omega

theorem isDigit_of_mem_digitBytes {n : Nat} {b : UInt8} (h : b ∈ digitBytes n) :
    isDigit b = true := by
  have := toNat_of_mem_digitBytes h
  simpa [isDigit, UInt8.le_iff_toNat_le] using this

theorem digits?_digitBytes (n : Nat) : digits? (digitBytes n) = some (digitValues n, []) := by
  have hall : ∀ b ∈ digitBytes n, isDigit b = true := fun b => isDigit_of_mem_digitBytes
  have htake : (digitBytes n).takeWhile isDigit = digitBytes n := by
    simpa using @List.takeWhile_append_of_pos _ isDigit _ [] hall
  have hdrop : (digitBytes n).dropWhile isDigit = [] := by
    simpa using @List.dropWhile_append_of_pos _ isDigit _ [] hall
  have hvalues : (digitBytes n).map (·.toNat - 48) = digitValues n := by
    rw [digitBytes_eq, List.map_map]
    refine List.map_congr_left fun c hc => ?_
    have := toNat_of_isDigit (isDigit_of_mem_digits hc)
    simp only [Function.comp_apply, UInt8.toNat_ofNat']
    omega
  unfold digits?
  rw [htake, hdrop]
  split
  · rename_i hnil
    exact absurd hnil (digitBytes_ne_nil n)
  · rw [hvalues]

theorem whole?_digitBytes (n : Nat) : whole? (digitBytes n) = some (digitValues n, []) := by
  unfold whole?
  split
  · rename_i d ds rest hzero
    rw [digits?_digitBytes, Option.some.injEq, Prod.mk.injEq] at hzero
    exact absurd hzero.1 (map_digits_ne_zero_cons n d ds)
  · exact digits?_digitBytes n

theorem writeInt_ofNat (n : Nat) : utf8 (Number.writeInt n) = digitBytes n := rfl

theorem writeInt_negSucc (n : Nat) :
    utf8 (Number.writeInt (.negSucc n)) = 45 :: digitBytes (n + 1) := by
  rw [Number.writeInt, utf8_cons]
  rfl

/-- What is written of an integer is read as its numeral. -/
theorem ofBytes?_writeInt (i : Int) : ofBytes? (utf8 (Number.writeInt i)) = some (ofInt i) := by
  cases i with
  | ofNat n =>
    show ofBytes? (digitBytes n) = _
    have hunsigned : ∀ rest, digitBytes n ≠ 45 :: rest := by
      intro rest h
      have := toNat_of_mem_digitBytes (n := n) (h ▸ List.mem_cons_self ..)
      simp at this
    unfold ofBytes?
    split
    · rename_i hsign
      split at hsign
      · exact absurd ‹_› (hunsigned _)
      · cases hsign
        simp [whole?_digitBytes, fraction?, exponent?, ofInt]
  | negSucc n =>
    rw [writeInt_negSucc]
    simp [ofBytes?, whole?_digitBytes, fraction?, exponent?, ofInt]

/-! ## One spelling -/

theorem digits?_eq_some {bs rest : List UInt8} {ds : List Nat} (h : digits? bs = some (ds, rest)) :
    ds ≠ [] ∧ ds = (bs.takeWhile isDigit).map (·.toNat - 48) ∧ rest = bs.dropWhile isDigit := by
  unfold digits? at h
  split at h
  · cases h
  · rename_i hne
    cases h
    exact ⟨by simpa using hne, rfl, rfl⟩

theorem natBelow?_eq_some {n : Numeral} {bound m : Nat} (h : n.natBelow? bound = some m) :
    n = ⟨false, n.whole, none, none⟩ ∧ value n.whole = m ∧ m < bound := by
  obtain ⟨negative, whole, fraction, exponent⟩ := n
  unfold natBelow? integer? at h
  cases fraction with
  | some ds => simp at h
  | none =>
    cases exponent with
    | some e => simp at h
    | none =>
      cases negative with
      | true =>
        -- a zero with a sign is none, and any other number with a sign is below zero
        cases hv : value whole with
        | zero => simp [hv] at h
        | succ v =>
          simp only [hv] at h
          cases h
      | false =>
        have h : value whole < bound ∧ value whole = m := by simpa using h
        exact ⟨rfl, h.2, h.2 ▸ h.1⟩

theorem fraction?_eq_none {bs rest : List UInt8} (h : fraction? bs = some (none, rest)) :
    rest = bs := by
  unfold fraction? at h
  split at h
  · obtain ⟨r, _, heq⟩ := Option.map_eq_some_iff.1 h
    cases heq
  · cases h
    rfl

theorem exponent?_eq_none {bs rest : List UInt8} (h : exponent? bs = some (none, rest)) :
    rest = bs := by
  unfold exponent? at h
  split at h
  · cases h
    rfl
  · split at h
    · obtain ⟨r, _, heq⟩ := Option.map_eq_some_iff.1 h
      cases heq
    · cases h
      rfl

theorem whole?_eq_some {bs rest : List UInt8} {ds : List Nat} (h : whole? bs = some (ds, rest)) :
    digits? bs = some (ds, rest) ∧ ∀ d ds', ds ≠ 0 :: d :: ds' := by
  unfold whole? at h
  split at h
  · cases h
  · rename_i hzero
    refine ⟨h, ?_⟩
    rintro d ds' rfl
    exact hzero d ds' rest h

/-- Digits that are read to the end, and do not start with a needless zero, are those of the number
that they stand for. -/
theorem eq_digitBytes_of_whole? {bs : List UInt8} {ds : List Nat} (h : whole? bs = some (ds, [])) :
    bs = digitBytes (value ds) := by
  obtain ⟨hdigits, hzero⟩ := whole?_eq_some h
  obtain ⟨hne, hds, hrest⟩ := digits?_eq_some hdigits
  have hall : bs.takeWhile isDigit = bs := by
    have happend := List.takeWhile_append_dropWhile (p := isDigit) (l := bs)
    rwa [← hrest, List.append_nil] at happend
  rw [hall] at hds
  have hdigit : ∀ b ∈ bs, 48 ≤ b.toNat ∧ b.toNat ≤ 57 := by
    intro b hb
    rw [← hall] at hb
    simpa [isDigit, UInt8.le_iff_toNat_le] using List.mem_takeWhile_imp hb
  have hsmall : ∀ d ∈ ds, d < 10 := by
    intro d hd
    rw [hds, List.mem_map] at hd
    obtain ⟨b, hb, rfl⟩ := hd
    have := hdigit b hb
    omega
  have hvalues : (Nat.toDigits 10 (value ds)).map (·.toNat - 48) = ds :=
    map_digits_foldl hne hsmall hzero
  calc
    bs = ds.map fun d => UInt8.ofNat (d + 48) := by
      rw [hds, List.map_map]
      refine (List.map_id bs).symm.trans (List.map_congr_left fun b hb => ?_)
      have := hdigit b hb
      rw [Function.comp_apply, Nat.sub_add_cancel this.1, UInt8.ofNat_toNat, id]
    _ = digitBytes (value ds) := by
      rw [digitBytes_eq, ← hvalues, List.map_map, hvalues]
      refine List.map_congr_left fun c hc => ?_
      have := toNat_of_isDigit (isDigit_of_mem_digits hc)
      rw [Function.comp_apply, Nat.sub_add_cancel this.1]

/-- A natural number has one spelling as a numeral. -/
theorem eq_digitBytes {raw : List UInt8} {n : Numeral} {bound m : Nat} (h : ofBytes? raw = some n)
    (hm : n.natBelow? bound = some m) : raw = digitBytes m := by
  obtain ⟨hn, rfl, -⟩ := natBelow?_eq_some hm
  rw [hn] at h
  unfold ofBytes? at h
  split at h
  rename_i negative bs hsign
  simp only [Option.bind_eq_bind, Option.bind_eq_some_iff] at h
  obtain ⟨⟨whole, bs₁⟩, hwhole, ⟨fraction, bs₂⟩, hfraction, ⟨exponent, bs₃⟩, hexponent, h⟩ := h
  split at h
  · rename_i hend
    simp only [Option.some.injEq, Numeral.mk.injEq] at h
    obtain ⟨rfl, rfl, rfl, rfl⟩ := h
    obtain rfl := fraction?_eq_none hfraction
    obtain rfl := exponent?_eq_none hexponent
    obtain rfl := List.isEmpty_iff.1 hend
    have hbs : bs = raw := by
      split at hsign
      · cases hsign
      · exact (Prod.mk.inj hsign).2.symm
    rw [← hbs]
    exact eq_digitBytes_of_whole? hwhole
  · cases h

end Numeral

end Quorate.Json
