/-
The tokens of a document, of which it is built again, whatever containers are open around it.
-/
import Quorate.Json.Document

namespace Quorate.Json

namespace Doc

mutual

def tokens : Doc → List Token
  | null => [.null]
  | bool b => [.bool b]
  | number n => [.numeral n]
  | text q => [.quoted q]
  | array [] => [.bracketOpen, .bracketClose]
  | array (d :: ds) => .bracketOpen :: (tokens d ++ itemTokens ds)
  | object [] => [.braceOpen, .braceClose]
  | object ((k, d) :: ms) => .braceOpen :: .quoted k :: .colon :: (tokens d ++ memberTokens ms)

/-- The tokens of the items behind the first, up to the closing bracket. -/
def itemTokens : List Doc → List Token
  | [] => [.bracketClose]
  | d :: ds => .comma :: (tokens d ++ itemTokens ds)

/-- The tokens of the members behind the first, up to the closing brace. -/
def memberTokens : List (Quoted × Doc) → List Token
  | [] => [.braceClose]
  | (k, d) :: ms => .comma :: .quoted k :: .colon :: (tokens d ++ memberTokens ms)

end

/-- No document starts with a closing bracket. -/
theorem tokens_head (d : Doc) : ∃ t ts, d.tokens = t :: ts ∧ t ≠ .bracketClose := by
  unfold tokens
  split <;> exact ⟨_, _, rfl, nofun⟩

/-- A bracket in front of a document opens an array. -/
theorem valueNext_bracketOpen (d : Doc) (ts : List Token) (frames : List Frame) :
    valueNext (.bracketOpen :: (d.tokens ++ ts)) frames =
      valueNext (d.tokens ++ ts) (.array [] :: frames) := by
  obtain ⟨t, ts', ht, hne⟩ := d.tokens_head
  rw [ht, List.cons_append, valueNext]
  rintro ts'' heq
  exact hne (List.cons.inj heq).1

mutual

theorem valueNext_tokens : ∀ (d : Doc) (ts : List Token) (frames : List Frame),
    valueNext (d.tokens ++ ts) frames = valueDone d ts frames
  | null, ts, frames => by simp [tokens, valueNext]
  | bool b, ts, frames => by simp [tokens, valueNext]
  | number n, ts, frames => by simp [tokens, valueNext]
  | text q, ts, frames => by simp [tokens, valueNext]
  | array [], ts, frames => by simp [tokens, valueNext]
  | array (d :: ds), ts, frames => by
    rw [tokens, List.cons_append, List.append_assoc, valueNext_bracketOpen, valueNext_tokens d,
      valueDone_items ds]
    rfl
  | object [], ts, frames => by simp [tokens, valueNext]
  | object ((k, d) :: ms), ts, frames => by
    rw [tokens, List.cons_append, List.cons_append, List.cons_append, List.append_assoc, valueNext,
      valueNext_tokens d, valueDone_members ms]
    rfl

theorem valueDone_items : ∀ (ds : List Doc) (d : Doc) (done : List Doc) (ts : List Token)
    (frames : List Frame), valueDone d (itemTokens ds ++ ts) (.array done :: frames) =
      valueDone (.array (done.reverse ++ d :: ds)) ts frames
  | [], d, done, ts, frames => by simp [itemTokens, valueDone]
  | d' :: ds, d, done, ts, frames => by
    rw [itemTokens, List.cons_append, List.append_assoc, valueDone, valueNext_tokens d',
      valueDone_items ds]
    simp

theorem valueDone_members : ∀ (ms : List (Quoted × Doc)) (k : Quoted) (d : Doc)
    (done : List (Quoted × Doc)) (ts : List Token) (frames : List Frame),
    valueDone d (memberTokens ms ++ ts) (.object done k :: frames) =
      valueDone (.object (done.reverse ++ (k, d) :: ms)) ts frames
  | [], k, d, done, ts, frames => by simp [memberTokens, valueDone]
  | (k', d') :: ms, k, d, done, ts, frames => by
    rw [memberTokens, List.cons_append, List.cons_append, List.cons_append, List.append_assoc,
      valueDone, valueNext_tokens d', valueDone_members ms]
    simp

end

/-- A document is built of its tokens. -/
theorem ofTokens?_tokens (d : Doc) : ofTokens? d.tokens = some d := by
  have hbuilt := valueNext_tokens d [] []
  rw [List.append_nil] at hbuilt
  rw [ofTokens?, hbuilt, valueDone]

end Doc

end Quorate.Json
