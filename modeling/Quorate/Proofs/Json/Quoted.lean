/-
Quoted text of JSON: what is written of a text between quotes ends at the closing one, and it means
the text.
-/
import Quorate.Json.Writer
import Quorate.Proofs.Utf8

namespace Quorate.Json.Quoted

open Text

/-- What is written of a text between quotes. -/
def ofText (s : String) : Quoted := ⟨utf8 (s.toList.flatMap escaped)⟩

/-! ## Spellings -/

/-- How bytes can be spelled: behind a backslash as a letter or as a code point, or by themselves. -/
inductive Spelled : (meant written : List UInt8) → Prop
  | letter {e b : UInt8} : escapes.lookup e = some b → Spelled [b] [92, e]
  | point {a b c d : UInt8} {u : Nat} : unit? a b c d = some u → u < 0xD800 →
    Spelled (encodePoint u) [92, 117, a, b, c, d]
  | plain {bs : List UInt8} : (∀ b ∈ bs, 32 ≤ b ∧ b ≠ 34 ∧ b ≠ 92) → Spelled bs bs

/-- A control is spelled by its code point. -/
theorem utf8_pair : ∀ n : Fin 32,
    utf8 (['\\', 'u', '0', '0'] ++ Hex.pair (UInt8.ofNat n.val)) =
      [92, 117, 48, 48, UInt8.ofNat (Hex.digit (n.val / 16)).toNat,
        UInt8.ofNat (Hex.digit (n.val % 16)).toNat] := by
  decide

theorem unit?_pair : ∀ n : Fin 32, unit? 48 48 (UInt8.ofNat (Hex.digit (n.val / 16)).toNat)
    (UInt8.ofNat (Hex.digit (n.val % 16)).toNat) = some n.val := by
  decide

/-- A character that needs no escape is spelled by its own bytes. -/
theorem spelled_plain {c : Char} (hquote : c ≠ '"') (hslash : c ≠ '\\') (h : 32 ≤ c.toNat) :
    Spelled (String.utf8EncodeChar c) (String.utf8EncodeChar c) := by
  refine .plain fun b hb => ?_
  by_cases hascii : c.toNat < 128
  · rw [utf8EncodeChar_of_lt hascii] at hb
    obtain rfl := List.mem_singleton.1 hb
    have hcode : (UInt8.ofNat c.toNat).toNat = c.toNat := by
      rw [UInt8.toNat_ofNat']
      omega
    have hquote' : c.toNat ≠ 34 := fun heq => hquote (Char.toNat_inj.1 heq)
    have hslash' : c.toNat ≠ 92 := fun heq => hslash (Char.toNat_inj.1 heq)
    simp only [UInt8.le_iff_toNat_le, ne_eq, ← UInt8.toNat_inj, hcode]
    exact ⟨h, hquote', hslash'⟩
  · have hlarge := le_of_mem_utf8EncodeChar (Nat.le_of_not_lt hascii) hb
    simp only [UInt8.le_iff_toNat_le, ne_eq, ← UInt8.toNat_inj]
    exact ⟨Nat.le_trans (by decide) hlarge, fun h => by simp [h] at hlarge,
      fun h => by simp [h] at hlarge⟩

theorem spelled_escaped (c : Char) : Spelled (String.utf8EncodeChar c) (utf8 (escaped c)) := by
  unfold escaped
  split
  · rename_i h; subst h; exact .letter rfl
  split
  · rename_i h; subst h; exact .letter rfl
  split
  · rename_i h; subst h; exact .letter rfl
  split
  · rename_i h; subst h; exact .letter rfl
  split
  · rename_i h; subst h; exact .letter rfl
  split
  · rename_i h; subst h; exact .letter rfl
  split
  · rename_i h; subst h; exact .letter rfl
  split
  · rename_i h
    rw [utf8_pair ⟨c.toNat, h⟩]
    have hpoint := Spelled.point (unit?_pair ⟨c.toNat, h⟩) (by omega)
    rwa [encodePoint, Char.ofNat_toNat] at hpoint
  · rename_i hquote hslash _ _ _ _ _ h
    rw [utf8_cons, utf8_nil, List.append_nil]
    exact spelled_plain hquote hslash (Nat.le_of_not_lt h)

theorem ne_of_lookup {e b : UInt8} (h : escapes.lookup e = some b) : e ≠ 117 := by
  rintro rfl
  cases h

theorem split?_spelled {meant written : List UInt8} (h : Spelled meant written)
    (rest : List UInt8) :
    split? (written ++ rest) = (fun r => (written ++ r.1, r.2)) <$> split? rest := by
  cases h with
  | letter h =>
    have hne := ne_of_lookup h
    simp [split?, h, hne]
  | point h _ => simp [split?, h]
  | plain h =>
    induction meant with
    | nil => simp
    | cons b bs ih =>
      obtain ⟨hb, hbs⟩ := List.forall_mem_cons.1 h
      have hlow : ¬ b < 32 := UInt8.not_lt.2 hb.1
      rw [List.cons_append, split?.eq_5 _ _ (fun h => hb.2.1 h) (by simp [hb.2.2])
        (by simp [hb.2.2]), if_neg hlow, ih hbs]
      cases split? rest <;> rfl

theorem unescape?_spelled {meant written : List UInt8} (h : Spelled meant written)
    (rest : List UInt8) :
    unescape? (written ++ rest) = (meant ++ ·) <$> unescape? rest := by
  cases h with
  | letter h =>
    have hne := ne_of_lookup h
    simp [unescape?, h, hne]
  | point h hu => simp [unescape?, h, hu]
  | plain h =>
    induction meant with
    | nil => simp
    | cons b bs ih =>
      obtain ⟨hb, hbs⟩ := List.forall_mem_cons.1 h
      rw [List.cons_append, unescape?.eq_4 _ _ (by simp [hb.2.2]) (by simp [hb.2.2]), ih hbs]
      cases unescape? rest <;> rfl

/-! ## Whole texts -/

theorem split?_written (cs : List Char) (rest : List UInt8) :
    split? (utf8 (cs.flatMap escaped) ++ 34 :: rest) = some (utf8 (cs.flatMap escaped), rest) := by
  induction cs with
  | nil => rfl
  | cons c cs ih =>
    rw [List.flatMap_cons, utf8_append, List.append_assoc, split?_spelled (spelled_escaped c), ih]
    rfl

theorem unescape?_written (cs : List Char) :
    unescape? (utf8 (cs.flatMap escaped)) = some (utf8 cs) := by
  induction cs with
  | nil => rfl
  | cons c cs ih =>
    rw [List.flatMap_cons, utf8_append, unescape?_spelled (spelled_escaped c), ih]
    rfl

/-- What is written of a text means it. -/
theorem text?_ofText (s : String) : (ofText s).text? = some s := by
  unfold text? ofText
  rw [unescape?_written, Option.bind_eq_bind, Option.bind_some, ofBytes?_utf8, String.ofList_toList]

end Quorate.Json.Quoted
