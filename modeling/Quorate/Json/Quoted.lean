/-
Quoted text of JSON. What stands between the quotes is kept as it was written; whether it stands for
a text is a question of its own, since an escape may name half of a surrogate pair and raw bytes may
be no UTF-8.
-/
import Quorate.Hex

namespace Quorate.Json

/-- The bytes between two quotes. -/
structure Quoted where
  raw : List UInt8
  deriving DecidableEq

namespace Quoted

/-- The letters that may follow a backslash, with what they stand for. -/
def escapes : List (UInt8 × UInt8) :=
  [(34, 34), (92, 92), (47, 47), (98, 8), (102, 12), (110, 10), (114, 13), (116, 9)]

/-- The 16-bit unit that four hexadecimal digits spell. -/
def unit? (a b c d : UInt8) : Option Nat := do
  let a ← Hex.value? a
  let b ← Hex.value? b
  let c ← Hex.value? c
  let d ← Hex.value? d
  some (((a * 16 + b) * 16 + c) * 16 + d)

/-- Splits text behind an opening quote into what stands before the closing one and what follows it.
Escapes have to be complete, and controls have to be escaped. -/
def split? : List UInt8 → Option (List UInt8 × List UInt8)
  | [] => none
  | 34 :: rest => some ([], rest)
  | 92 :: 117 :: a :: b :: c :: d :: rest =>
    if (unit? a b c d).isSome then
      (fun r => (92 :: 117 :: a :: b :: c :: d :: r.1, r.2)) <$> split? rest
    else none
  | 92 :: e :: rest =>
    if (escapes.lookup e).isSome then (fun r => (92 :: e :: r.1, r.2)) <$> split? rest else none
  | b :: rest => if b < 32 then none else (fun r => (b :: r.1, r.2)) <$> split? rest

theorem length_of_split? {bs raw rest : List UInt8} (h : split? bs = some (raw, rest)) :
    rest.length < bs.length := by
  fun_induction split? bs generalizing raw with
  | case1 => simp at h
  | case2 r => simp at h; simp [h.2]
  | case3 a b c d r _ ih =>
    obtain ⟨⟨x, y⟩, hx, he⟩ := Option.map_eq_some_iff.1 h
    simp only [Prod.mk.injEq] at he
    obtain ⟨-, rfl⟩ := he
    have := ih hx
    simp only [List.length_cons]; omega
  | case4 => simp at h
  | case5 e r _ _ ih =>
    obtain ⟨⟨x, y⟩, hx, he⟩ := Option.map_eq_some_iff.1 h
    simp only [Prod.mk.injEq] at he
    obtain ⟨-, rfl⟩ := he
    have := ih hx
    simp only [List.length_cons]; omega
  | case6 => simp at h
  | case7 => simp at h
  | case8 b r _ _ _ _ ih =>
    obtain ⟨⟨x, y⟩, hx, he⟩ := Option.map_eq_some_iff.1 h
    simp only [Prod.mk.injEq] at he
    obtain ⟨-, rfl⟩ := he
    have := ih hx
    simp only [List.length_cons]; omega

/-- The bytes of the character with a code point. -/
def encodePoint (n : Nat) : List UInt8 := String.utf8EncodeChar (Char.ofNat n)

/-- The bytes that raw text stands for. A high surrogate has to be followed by a low one, and a low
one has to follow a high one. -/
def unescape? : List UInt8 → Option (List UInt8)
  | [] => some []
  | 92 :: 117 :: a :: b :: c :: d :: rest =>
    match unit? a b c d with
    | none => none
    | some u =>
      if u < 0xD800 ∨ 0xDFFF < u then (encodePoint u ++ ·) <$> unescape? rest
      else if 0xDC00 ≤ u then none
      else
        match rest with
        | 92 :: 117 :: e :: f :: g :: h :: after =>
          match unit? e f g h with
          | none => none
          | some w =>
            if 0xDC00 ≤ w ∧ w ≤ 0xDFFF then
              (encodePoint (0x10000 + (u - 0xD800) * 0x400 + (w - 0xDC00)) ++ ·) <$> unescape? after
            else none
        | _ => none
  | 92 :: e :: rest =>
    match escapes.lookup e with
    | some b => (b :: ·) <$> unescape? rest
    | none => none
  | b :: rest => (b :: ·) <$> unescape? rest

/-- The text that is meant, if the escapes and the bytes stand for one. -/
def text? (q : Quoted) : Option String := do Text.ofBytes? (← unescape? q.raw)

end Quoted

end Quorate.Json
