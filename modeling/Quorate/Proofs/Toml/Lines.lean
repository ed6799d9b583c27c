/-
Lines of TOML as settings have them: headers with two bare names, and assignments of texts and
natural numbers. What is read of a line does not depend on what follows its end.
-/
import Quorate.Proofs.Digits
import Quorate.Proofs.Toml.Quoted
import Quorate.Toml.Document

namespace Quorate.Toml

/-! ## Bare names -/

/-- Text that can stand as a name without quotes. -/
structure Bare (cs : List Char) : Prop where
  nonempty : cs ≠ []
  bare : ∀ c ∈ cs, isBare c = true

theorem bare_of_all {cs : List Char} (h : (!cs.isEmpty && cs.all isBare) = true) : Bare cs := by
  rw [Bool.and_eq_true, Bool.not_eq_true', List.isEmpty_eq_false_iff, List.all_eq_true] at h
  exact ⟨h.1, h.2⟩

theorem not_isBlank_of_isBare {c : Char} (h : isBare c = true) : isBlank c = false := by
  cases hblank : isBlank c with
  | false => rfl
  | true =>
    simp only [isBlank, Bool.or_eq_true, beq_iff_eq] at hblank
    rcases hblank with rfl | rfl <;> exact absurd h (by decide)

theorem Bare.head {cs : List Char} (h : Bare cs) : ∃ c t, cs = c :: t ∧ isBlank c = false := by
  obtain ⟨c, t, rfl⟩ := List.exists_cons_of_ne_nil h.nonempty
  exact ⟨c, t, rfl, not_isBlank_of_isBare (h.bare c (List.mem_cons_self ..))⟩

theorem bare_digits (n : Nat) : Bare (Nat.toDigits 10 n) where
  nonempty := Nat.toDigits_ne_nil
  bare c hc := by simp [isBare, Char.isAlphanum, isDigit_of_mem_digits hc]

theorem dropBlanks_cons {c : Char} (h : isBlank c = false) (cs : List Char) :
    dropBlanks (c :: cs) = c :: cs := by
  simp [dropBlanks, h]

theorem dropBlanks_bare {cs : List Char} (h : Bare cs) (rest : List Char) :
    dropBlanks (cs ++ rest) = cs ++ rest := by
  obtain ⟨c, t, rfl, hc⟩ := h.head
  exact dropBlanks_cons hc _

theorem name_bare {cs : List Char} (h : Bare cs) {d : Char} (hd : isBare d = false)
    (rest : List Char) : name (cs ++ d :: rest) = some (String.ofList cs, d :: rest) := by
  obtain ⟨hne, hbare⟩ := h
  have htake : (cs ++ d :: rest).takeWhile isBare = cs := by
    rw [List.takeWhile_append_of_pos hbare, List.takeWhile_cons]
    simp [hd]
  have hdrop : (cs ++ d :: rest).dropWhile isBare = d :: rest := by
    rw [List.dropWhile_append_of_pos hbare, List.dropWhile_cons]
    simp [hd]
  unfold name
  split
  · rename_i heq
    obtain ⟨c, t, rfl⟩ := List.exists_cons_of_ne_nil hne
    obtain ⟨rfl, -⟩ := List.cons.inj heq
    exact absurd (hbare _ (List.mem_cons_self ..)) (by decide)
  · rename_i heq
    obtain ⟨c, t, rfl⟩ := List.exists_cons_of_ne_nil hne
    obtain ⟨rfl, -⟩ := List.cons.inj heq
    exact absurd (hbare _ (List.mem_cons_self ..)) (by decide)
  · simp [htake, hdrop, hne]

/-- A name in front of a point is the first of a path. -/
theorem names_point {cs : List Char} (h : Bare cs) (rest : List Char) :
    names (cs ++ '.' :: rest) = (fun r => (String.ofList cs :: r.1, r.2)) <$> names rest := by
  rw [names, dropBlanks_bare h, name_bare h (by decide)]
  simp [dropBlanks_cons (show isBlank '.' = false from rfl)]
  omega

/-- A name in front of anything else is the last one. -/
theorem names_last {cs : List Char} (h : Bare cs) {d : Char} (hd : isBare d = false)
    {rest after : List Char} (hafter : dropBlanks (d :: rest) = after) (hpoint : ∀ r, after ≠ '.' :: r) :
    names (cs ++ d :: rest) = some ([String.ofList cs], after) := by
  rw [names, dropBlanks_bare h, name_bare h hd]
  simp only [hafter]

/-- The key of a table. -/
theorem key_single {cs : List Char} (h : Bare cs) (rest : List Char) :
    key (cs ++ ']' :: rest) = some (([], String.ofList cs), ']' :: rest) := by
  unfold key
  rw [names_last h (by decide) (dropBlanks_cons (by decide) _) (by simp)]
  simp [nestingLimit]

/-- The key of a table within a table. -/
theorem key_pair {outer inner : List Char} (houter : Bare outer) (hinner : Bare inner)
    (rest : List Char) : key (outer ++ '.' :: (inner ++ ']' :: rest)) =
      some (([String.ofList outer], String.ofList inner), ']' :: rest) := by
  unfold key
  rw [names_point houter,
    names_last hinner (by decide) (dropBlanks_cons (by decide) _) (by simp)]
  simp [nestingLimit]

/-- What starts with a bare name does not open a second bracket. -/
theorem ne_bracket_cons {cs : List Char} (h : Bare cs) (rest t : List Char) :
    cs ++ rest ≠ '[' :: t := by
  obtain ⟨c, u, rfl⟩ := List.exists_cons_of_ne_nil h.nonempty
  intro heq
  obtain ⟨rfl, -⟩ := List.cons.inj heq
  exact absurd (h.bare '[' (List.mem_cons_self ..)) (by decide)

theorem statement_header {cs rest : List Char} {k : List String × String}
    (hcs : ∀ t, cs ≠ '[' :: t) (hkey : key cs = some (k, ']' :: rest)) :
    statement ('[' :: cs) = some (.header k.1 k.2, rest) := by
  have hheader : headerKey [']'] cs = some (k, rest) := by
    simp [headerKey, hkey]
  unfold statement
  split
  · rename_i heq
    exact absurd (List.cons.inj heq).2 (hcs _)
  · rename_i heq
    obtain rfl := (List.cons.inj heq).2
    rw [hheader]
    rfl
  · rename_i heq
    exact absurd rfl (heq _)

/-- An assignment to a bare name. -/
theorem statement_assignment {cs : List Char} (h : Bare cs) {c : Char} (hc : isBlank c = false)
    {t rest : List Char} {v : Value} (hvalue : value nestingLimit (c :: t) = some (v, rest)) :
    statement (cs ++ ' ' :: '=' :: ' ' :: c :: t) =
      some (.assignment [] (String.ofList cs) v, rest) := by
  have hlast : names (cs ++ ' ' :: '=' :: ' ' :: c :: t) =
      some ([String.ofList cs], '=' :: ' ' :: c :: t) :=
    names_last h (by decide) rfl (by simp)
  have hkey : key (cs ++ ' ' :: '=' :: ' ' :: c :: t) =
      some (([], String.ofList cs), '=' :: ' ' :: c :: t) := by
    unfold key
    rw [hlast]
    simp [nestingLimit]
  have hdrop : dropBlanks (' ' :: c :: t) = c :: t := dropBlanks_cons hc t
  have hassign : assignment (value nestingLimit) (cs ++ ' ' :: '=' :: ' ' :: c :: t) =
      some (([], String.ofList cs, v), rest) := by
    simp [assignment, hkey, hdrop, hvalue]
  unfold statement
  split
  · rename_i heq
    exact absurd heq (ne_bracket_cons h _ _)
  · rename_i heq
    exact absurd heq (ne_bracket_cons h _ _)
  · rw [hassign]
    rfl

/-! ## Values -/

/-- Quoted text starts with one of two quotes. -/
theorem exists_head_writeText (s : String) :
    ∃ q t, writeText s = q :: t ∧ (q = '"' ∨ q = '\'') := by
  unfold writeText writeIn
  cases styleOf s.toList with
  | basic => exact ⟨'"', _, rfl, .inl rfl⟩
  | literal => exact ⟨'\'', _, rfl, .inr rfl⟩
  | basicLines => exact ⟨'"', _, rfl, .inl rfl⟩
  | literalLines => exact ⟨'\'', _, rfl, .inr rfl⟩

theorem value_writeText (depth : Nat) (s : String) (rest : List Char) :
    value depth (writeText s ++ '\n' :: rest) = some (.text s, '\n' :: rest) := by
  have htext : Quoted.text (writeText s ++ '\n' :: rest) = some (s.toList, '\n' :: rest) :=
    Quoted.text_writeText (by simp) (by simp) s
  obtain ⟨q, t, hq, rfl | rfl⟩ := exists_head_writeText s
  all_goals
    rw [hq, List.cons_append] at htext ⊢
    simp [value, htext]

theorem not_of_isDigit {d : Char} (hd : d.isDigit = false) {cs : List Char}
    (h : ∀ c ∈ cs, c.isDigit = true) : d ∉ cs := fun hmem => by
  rw [h d hmem] at hd
  cases hd

theorem isTime_of_digits {cs : List Char} (h : ∀ c ∈ cs, c.isDigit = true) :
    Time.isDate cs = false ∧ Time.isTime cs = false := by
  have hdate : Time.date? cs = none := by
    unfold Time.date?
    split
    · exact absurd (by simp) (not_of_isDigit (d := '-') rfl h)
    · rfl
  have hclock : Time.clock? cs = none := by
    unfold Time.clock?
    split
    · exact absurd (by simp) (not_of_isDigit (d := ':') rfl h)
    · rfl
  simp [Time.isDate, Time.isTime, hdate, hclock]

theorem signed_of_digits {cs : List Char} (h : ∀ c ∈ cs, c.isDigit = true) :
    signed cs = (false, cs) := by
  unfold signed
  split
  · exact absurd (List.mem_cons_self ..) (not_of_isDigit (d := '-') rfl h)
  · exact absurd (List.mem_cons_self ..) (not_of_isDigit (d := '+') rfl h)
  · rfl

theorem endsWhole_of_isDigit {c : Char} (h : c.isDigit = true) : endsWhole c = false := by
  cases hends : endsWhole c with
  | false => rfl
  | true =>
    simp only [endsWhole, Bool.or_eq_true, beq_iff_eq] at hends
    rcases hends with (rfl | rfl) | rfl <;> exact absurd h (by decide)

theorem isFloat_of_digits {cs : List Char} (h : ∀ c ∈ cs, c.isDigit = true) :
    isFloat cs = false := by
  have hinf : cs ≠ ['i', 'n', 'f'] := fun heq =>
    not_of_isDigit (d := 'i') rfl h (by simp [heq])
  have hnan : cs ≠ ['n', 'a', 'n'] := fun heq =>
    not_of_isDigit (d := 'a') rfl h (by simp [heq])
  have hend : cs.dropWhile (!endsWhole ·) = [] := by
    rw [← List.append_nil cs, List.dropWhile_append_of_pos fun c hc => by
      rw [endsWhole_of_isDigit (h c hc)]; rfl]
    rfl
  unfold isFloat
  rw [signed_of_digits h]
  simp [hinf, hnan, hend]

/-- Digits alone are the values of the digits. -/
theorem grouped?_of_digits : ∀ {cs : List Char}, cs ≠ [] → (∀ c ∈ cs, c.isDigit = true) →
    grouped? decimal? cs = some (cs.map (·.toNat - 48))
  | [], hne, _ => absurd rfl hne
  | [c], _, h => by
    have hc := h c (List.mem_cons_self ..)
    simp [grouped?, decimal?, hc]
  | c :: d :: cs, _, h => by
    obtain ⟨hc, hcs⟩ := List.forall_mem_cons.1 h
    have hgroup := grouped?_of_digits (List.cons_ne_nil d cs) hcs
    have hd : d ≠ '_' := by
      rintro rfl
      exact absurd (hcs '_' (List.mem_cons_self ..)) (by decide)
    rw [grouped?.eq_4 _ _ _ (by simp) (by simp [hd]), hgroup]
    simp [decimal?, hc]

theorem fitting?_natCast {n : Nat} (h : n < 0x8000000000000000) : fitting? n = some (n : Int) :=
  if_pos (by omega)

/-- No number is written with a zero in front. -/
theorem whole?_digits (n : Nat) :
    whole? (Nat.toDigits 10 n) = some ((Nat.toDigits 10 n).map (·.toNat - 48)) := by
  have hdigits : ∀ c ∈ Nat.toDigits 10 n, c.isDigit = true := fun _ => isDigit_of_mem_digits
  have hgroup := grouped?_of_digits Nat.toDigits_ne_nil hdigits
  unfold whole?
  split
  · rename_i d ds hzero
    rw [hgroup, Option.some.injEq] at hzero
    exact absurd hzero (map_digits_ne_zero_cons n d ds)
  · exact hgroup

theorem integer?_of_digits {cs : List Char} (h : ∀ c ∈ cs, c.isDigit = true) :
    integer? cs = whole? cs >>= fun ds => fitting? (ofDigits 10 ds) := by
  unfold integer?
  split
  · exact absurd (by simp) (not_of_isDigit (d := 'x') rfl h)
  · exact absurd (by simp) (not_of_isDigit (d := 'o') rfl h)
  · exact absurd (by simp) (not_of_isDigit (d := 'b') rfl h)
  · simp [signed_of_digits h]

theorem integer?_digits {n : Nat} (h : n < 0x8000000000000000) :
    integer? (Nat.toDigits 10 n) = some (n : Int) := by
  have hvalue : ofDigits 10 ((Nat.toDigits 10 n).map (·.toNat - 48)) = n := foldl_digits n
  rw [integer?_of_digits fun _ => isDigit_of_mem_digits, whole?_digits, Option.bind_eq_bind,
    Option.bind_some, hvalue, fitting?_natCast h]

/-- What starts with a digit is a word. -/
theorem value_of_isDigit (depth : Nat) {c : Char} (h : c.isDigit = true) (cs : List Char) :
    value depth (c :: cs) = scalar (c :: cs) := by
  have hquote : c ≠ '"' ∧ c ≠ '\'' := by constructor <;> rintro rfl <;> cases h
  have hopening : c ≠ '[' ∧ c ≠ '\x7b' := by constructor <;> rintro rfl <;> cases h
  unfold value
  split <;> simp_all

theorem value_digits (depth : Nat) {n : Nat} (h : n < 0x8000000000000000) (rest : List Char) :
    value depth (Nat.toDigits 10 n ++ '\n' :: rest) = some (.integer n, '\n' :: rest) := by
  have hdigits : ∀ c ∈ Nat.toDigits 10 n, c.isDigit = true := fun _ => isDigit_of_mem_digits
  have hword : ∀ c ∈ Nat.toDigits 10 n, isWordChar c = true := fun c hc => by
    simp [isWordChar, Char.isAlphanum, hdigits c hc]
  have htake : (Nat.toDigits 10 n ++ '\n' :: rest).takeWhile isWordChar = Nat.toDigits 10 n := by
    rw [List.takeWhile_append_of_pos hword]
    simp [show isWordChar '\n' = false from rfl]
  have hdrop : (Nat.toDigits 10 n ++ '\n' :: rest).dropWhile isWordChar = '\n' :: rest := by
    rw [List.dropWhile_append_of_pos hword]
    simp [show isWordChar '\n' = false from rfl]
  obtain ⟨hdate, htime⟩ := isTime_of_digits hdigits
  have hword? : scalar? (Nat.toDigits 10 n) = some (.integer n) := by
    have htrue : Nat.toDigits 10 n ≠ ['t', 'r', 'u', 'e'] := fun heq =>
      not_of_isDigit (d := 't') rfl hdigits (by simp [heq])
    have hfalse : Nat.toDigits 10 n ≠ ['f', 'a', 'l', 's', 'e'] := fun heq =>
      not_of_isDigit (d := 'f') rfl hdigits (by simp [heq])
    unfold scalar?
    rw [if_neg htrue, if_neg hfalse, htime, isFloat_of_digits hdigits, integer?_digits h]
    rfl
  have hscalar : scalar (Nat.toDigits 10 n ++ '\n' :: rest) = some (.integer n, '\n' :: rest) := by
    simp [scalar, htake, hdrop, hdate, hword?]
  obtain ⟨c, cs, hcs⟩ := List.exists_cons_of_ne_nil (Nat.toDigits_ne_nil (b := 10) (n := n))
  rw [hcs] at hscalar ⊢
  rw [← hscalar]
  exact value_of_isDigit depth (hdigits c (by simp [hcs])) _

/-! ## Whole lines -/

theorem statements_nil : statements [] = some [] := by
  rw [statements]
  rfl

theorem statements_blank (rest : List Char) : statements ('\n' :: rest) = statements rest := by
  rw [statements]
  simp [dropBlanks, isBlank, isIdle, lineEnd]

/-- A statement that ends its line is read in front of what is read of the other lines. -/
theorem statements_line {c : Char} {t rest : List Char} {s : Statement} (hblank : isBlank c = false)
    (hidle : isIdle (c :: t) = false) (h : statement (c :: t) = some (s, '\n' :: rest))
    (hlength : rest.length < (c :: t).length) :
    statements (c :: t) = (s :: ·) <$> statements rest := by
  rw [statements, dropBlanks_cons hblank]
  simp only [hidle, h, lineEnd, Bool.false_eq_true, if_false, if_pos hlength]

theorem isIdle_of_isBare {c : Char} (h : isBare c = true) (cs : List Char) :
    isIdle (c :: cs) = false := by
  unfold isIdle
  split
  all_goals simp_all
  all_goals cases h

/-- A line that assigns a value. -/
theorem statements_assignment {name word rest : List Char} {v : Value} (hname : Bare name)
    (hword : ∃ c t, word = c :: t ∧ isBlank c = false)
    (hvalue : value nestingLimit (word ++ '\n' :: rest) = some (v, '\n' :: rest)) :
    statements (name ++ ' ' :: '=' :: ' ' :: (word ++ '\n' :: rest)) =
      (.assignment [] (String.ofList name) v :: ·) <$> statements rest := by
  obtain ⟨c, t, rfl, hc⟩ := hword
  have hs := statement_assignment hname hc hvalue
  obtain ⟨d, u, rfl⟩ := List.exists_cons_of_ne_nil hname.nonempty
  have hd := hname.bare d (List.mem_cons_self ..)
  refine statements_line (not_isBlank_of_isBare hd) (isIdle_of_isBare hd _) hs ?_
  simp
  omega

/-- A line with a header. -/
theorem statements_header {cs rest : List Char} {k : List String × String}
    (hcs : ∀ t, cs ≠ '[' :: t) (hkey : key cs = some (k, ']' :: '\n' :: rest))
    (hlength : rest.length ≤ cs.length) :
    statements ('[' :: cs) = (.header k.1 k.2 :: ·) <$> statements rest :=
  statements_line rfl rfl (statement_header hcs hkey) (Nat.lt_succ_of_le hlength)

end Quorate.Toml
