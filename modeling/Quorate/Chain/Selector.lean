/-
Chain selectors: the numbers by which chains are told apart.
-/
import Quorate.Text

namespace Quorate

/-- The number of a chain. -/
structure Selector where
  id : UInt64
  deriving DecidableEq

namespace Selector

theorem ext {a b : Selector} (h : a.id = b.id) : a = b := by
  cases a; cases b; cases h; rfl

/-- Selectors are ordered as numbers. -/
instance : Ord Selector := ⟨fun a b => compare a.id b.id⟩

instance : Std.TransOrd Selector where
  eq_swap := by
    intro a b
    exact (Std.OrientedCmp.eq_swap : compare a.id b.id = (compare b.id a.id).swap)
  isLE_trans := by
    intro a b c h k
    exact (Std.TransCmp.isLE_trans h k : (compare a.id c.id).isLE = true)

instance : Std.LawfulEqOrd Selector where
  compare_self := by
    intro a
    exact (Std.ReflCmp.compare_self : compare a.id a.id = .eq)
  eq_of_compare := by
    intro a b h
    have h : compare a.id b.id = .eq := h
    exact ext (Std.LawfulEqCmp.eq_of_compare h)

instance : Inhabited Selector := ⟨⟨0⟩⟩

instance : ToString Selector := ⟨fun s => toString s.id.toNat⟩

def describe (s : Selector) : String := s!"ChainSelector({s})"

/-! ## Reading -/

/-- Why a text is no selector. -/
inductive Fault where
  | empty
  | badDigit
  | tooLarge
  deriving DecidableEq, Repr

def Fault.message : Fault → String
  | .empty => "cannot parse integer from empty string"
  | .badDigit => "invalid digit found in string"
  | .tooLarge => "number too large to fit in target type"

/-- Reads digits from the left, starting with the number that those before them stand for. The first
character that is no digit or leads beyond 64 bits is the fault. -/
def readDigits (n : Nat) : List Char → Except Fault UInt64
  | [] => .ok (UInt64.ofNat n)
  | c :: cs =>
    if c.isDigit then
      let next := n * 10 + (c.toNat - 48)
      if next < UInt64.size then readDigits next cs else .error .tooLarge
    else .error .badDigit

/-- Reads a selector: digits, behind a plus sign if need be, between blanks. -/
def parse (s : String) : Except Fault Selector :=
  match Text.trim s.toList with
  | [] => .error .empty
  | '+' :: c :: cs => Selector.mk <$> readDigits 0 (c :: cs)
  | cs => Selector.mk <$> readDigits 0 cs

end Selector

end Quorate
