/-
Quoted text of TOML: what is written in any of the four styles is read back. Between double quotes
every character has a spelling of its own. On several lines, quotes may stand for themselves while
no three of them meet, and a reader has to look three ahead to tell them from the closing ones.
-/
import Quorate.Toml.Quoted
import Quorate.Toml.Writer
import Mathlib.Data.List.Basic

namespace Quorate.Toml.Quoted

/-! ## Spellings -/

/-- How a character can stand between double quotes: behind a backslash as a letter or as its code
point, or by itself. -/
inductive Spelled (c : Char) : List Char → Prop
  | letter {e : Char} : escape? e = some c → Spelled c ['\\', e]
  | point {a b d e : Char} : point? [a, b, d, e] = some c → Spelled c ['\\', 'u', a, b, d, e]
  | plain : isPlain c = true → c ≠ '"' → c ≠ '\\' → Spelled c [c]

/-- A spelling does not start like the end of the text or like a line break. -/
theorem Spelled.head {c : Char} {w : List Char} (h : Spelled c w) :
    ∃ d t, w = d :: t ∧ d ≠ '"' ∧ d ≠ '\n' ∧ d ≠ '\r' := by
  cases h with
  | letter _ => exact ⟨_, _, rfl, by decide, by decide, by decide⟩
  | point _ => exact ⟨_, _, rfl, by decide, by decide, by decide⟩
  | plain hc hquote _ =>
    refine ⟨c, [], rfl, hquote, ?_, ?_⟩ <;> rintro rfl <;> simp [isPlain] at hc

theorem point?_pair : ∀ n : Fin 128,
    point? ('0' :: '0' :: (Hex.pair (UInt8.ofNat n.val)).map Char.toUpper) =
      some (Char.ofNat n.val) := by
  decide

theorem spelled_escapedChar {c : Char} (hquote : c ≠ '"') (hline : c ≠ '\n') :
    Spelled c (escapedChar c) := by
  unfold escapedChar
  split
  · rename_i h; subst h; exact .letter rfl
  split
  · rename_i h; subst h; exact .letter rfl
  split
  · rename_i h; subst h; exact .letter rfl
  split
  · rename_i h; subst h; exact .letter rfl
  split
  · rename_i h; subst h; exact .letter rfl
  split
  · rename_i h
    have hsmall : c.toNat < 128 := by simp at h; omega
    have := point?_pair ⟨c.toNat, hsmall⟩
    simp only [Char.ofNat_toNat] at this
    exact .point this
  · rename_i hslash h
    refine .plain ?_ hquote hslash
    simp only [Bool.or_eq_true, decide_eq_true_eq, not_or, Nat.not_lt] at h
    simp [isPlain, h]

/-- The letters that stand for something behind a backslash. -/
theorem letter_of_escape? {e c : Char} (h : escape? e = some c) :
    e ∈ ['b', 't', 'n', 'f', 'r', '"', '\\'] := by
  unfold escape? at h
  split_ifs at h <;> simp_all

theorem basic_spelled {c : Char} {w : List Char} (h : Spelled c w) (rest : List Char) :
    basic (w ++ rest) = onto c (basic rest) := by
  cases h with
  | letter he =>
    have hletter := letter_of_escape? he
    simp only [List.mem_cons, List.not_mem_nil, or_false] at hletter
    rcases hletter with rfl | rfl | rfl | rfl | rfl | rfl | rfl <;> simp [basic, he]
  | point hp => simp [basic, hp]
  | plain hc hquote hslash => simp [basic, hc, hslash]

/-- A character that is neither a backslash nor the first of three quotes stands for itself. -/
theorem basicLines_char {c : Char} {rest : List Char} (hc : isPlain c = true ∨ c = '\n')
    (hslash : c ≠ '\\') (hquote : c = '"' → ∀ r, rest ≠ '"' :: '"' :: r) :
    basicLines .keeping (c :: rest) = onto c (basicLines .keeping rest) := by
  have hreturn : c ≠ '\r' := by
    rintro rfl
    simp [isPlain] at hc
  have hstep : basicLines .keeping (c :: rest) =
      if isBlank c || c = '\n' then onto c (basicLines .keeping rest)
      else if isPlain c then onto c (basicLines .keeping rest) else none := by
    rw [basicLines.eq_12] <;> simp_all
  rw [hstep]
  rcases hc with hc | hc <;> simp [hc]

theorem basicLines_spelled {c : Char} {w : List Char} (h : Spelled c w) (rest : List Char) :
    basicLines .keeping (w ++ rest) = onto c (basicLines .keeping rest) := by
  cases h with
  | letter he =>
    have hletter := letter_of_escape? he
    simp only [List.mem_cons, List.not_mem_nil, or_false] at hletter
    rcases hletter with rfl | rfl | rfl | rfl | rfl | rfl | rfl <;> simp [basicLines, isBlank, he]
  | point hp => simp [basicLines, hp]
  | plain hc hquote hslash => exact basicLines_char (.inl hc) hslash fun h => absurd h hquote

theorem onto_some (c : Char) (cs rest : List Char) :
    onto c (some (cs, rest)) = some (c :: cs, rest) := rfl

/-- What is written of a text between double quotes, character by character. -/
theorem escapedText_cons {lines : Bool} {c : Char} (hquote : c ≠ '"') (hline : c ≠ '\n')
    (run : Nat) (cs : List Char) :
    escapedText lines run (c :: cs) = escapedChar c ++ escapedText lines 0 cs := by
  simp [escapedText]

/-! ## One line -/

theorem basic_escapedText (rest : List Char) : ∀ (cs : List Char) (run : Nat),
    basic (escapedText false run cs ++ '"' :: rest) = some (cs, rest)
  | [], _ => by simp [escapedText, basic]
  | c :: cs, run => by
    have hcs := basic_escapedText rest cs 0
    by_cases hquote : c = '"'
    · subst hquote
      have hletter := basic_spelled (.letter (e := '"') rfl) (escapedText false 0 cs ++ '"' :: rest)
      rwa [hcs, onto_some] at hletter
    by_cases hline : c = '\n'
    · subst hline
      have hletter := basic_spelled (.letter (e := 'n') rfl) (escapedText false 0 cs ++ '"' :: rest)
      rwa [hcs, onto_some] at hletter
    · rw [escapedText_cons hquote hline, List.append_assoc,
        basic_spelled (spelled_escapedChar hquote hline), hcs, onto_some]

theorem literal_append (rest : List Char) {cs : List Char} (hplain : ∀ c ∈ cs, isPlain c = true)
    (hquote : ∀ c ∈ cs, c ≠ '\'') : literal (cs ++ '\'' :: rest) = some (cs, rest) := by
  induction cs with
  | nil => simp [literal]
  | cons c cs ih =>
    obtain ⟨hc, hcs⟩ := List.forall_mem_cons.1 hplain
    obtain ⟨hne, hnot⟩ := List.forall_mem_cons.1 hquote
    simp [literal, hc, ih hcs hnot, onto_some]

/-! ## Several lines -/

/-- A quote in what is written stands for itself, unless it is one of the closing ones. -/
theorem of_escapedText_eq_quote_cons {lines : Bool} {run : Nat} {cs close t : List Char}
    (h : escapedText lines run cs ++ close = '"' :: t) :
    cs = [] ∨ (lines = true ∧ run < 2) ∧
      ∃ cs', cs = '"' :: cs' ∧ t = escapedText lines (run + 1) cs' ++ close := by
  cases cs with
  | nil => exact .inl rfl
  | cons c cs =>
    right
    by_cases hquote : c = '"'
    · subst hquote
      by_cases hrun : lines = true ∧ run < 2
      · obtain ⟨rfl, hrun⟩ := hrun
        simp [escapedText, hrun] at h
        exact ⟨⟨rfl, hrun⟩, cs, rfl, h.symm⟩
      · rw [escapedText, if_neg (by simpa using hrun)] at h
        simp at h
    by_cases hline : c = '\n'
    · subst hline
      cases lines <;> simp [escapedText] at h
    · obtain ⟨d, w, hw, hd, _⟩ := (spelled_escapedChar hquote hline).head
      rw [escapedText_cons hquote hline, hw] at h
      exact absurd (List.cons.inj h).1 hd

/-- Behind a quote no two more follow, unless they are the last of the text. -/
theorem escapedText_ne_quotes {run : Nat} {cs close : List Char} (hcs : cs ≠ [])
    (hlast : ¬ (cs = ['"'] ∧ run = 0)) (t : List Char) :
    escapedText true (run + 1) cs ++ close ≠ '"' :: '"' :: t := by
  intro h
  rcases of_escapedText_eq_quote_cons h with rfl | ⟨hrun, cs', rfl, ht⟩
  · exact hcs rfl
  rcases of_escapedText_eq_quote_cons ht.symm with rfl | ⟨⟨_, hrun'⟩, _⟩
  · exact hlast ⟨rfl, by omega⟩
  · omega

section Lines

variable {rest : List Char} (hrest : ∀ r, rest ≠ '"' :: r)
include hrest

theorem basicLines_escapedText : ∀ (cs : List Char) (run : Nat),
    basicLines .keeping (escapedText true run cs ++ ('"' :: '"' :: '"' :: rest)) = some (cs, rest)
  | [], _ => by simp [escapedText, basicLines, hrest]
  | c :: cs, run => by
    by_cases hquote : c = '"'
    · subst hquote
      by_cases hrun : run < 2
      · have htext : escapedText true run ('"' :: cs) = '"' :: escapedText true (run + 1) cs := by
          simp [escapedText, hrun]
        rw [htext, List.cons_append]
        -- the last quotes of the text stand in front of the closing ones
        by_cases hnil : cs = []
        · subst hnil
          simp [escapedText, basicLines]
        by_cases hlast : cs = ['"'] ∧ run = 0
        · obtain ⟨rfl, rfl⟩ := hlast
          simp [escapedText, basicLines]
        · rw [basicLines_char (.inl rfl) (by decide) fun _ => escapedText_ne_quotes hnil hlast,
            basicLines_escapedText cs (run + 1), onto_some]
      · have hletter := basicLines_spelled (.letter (e := '"') rfl)
          (escapedText true 0 cs ++ ('"' :: '"' :: '"' :: rest))
        rw [basicLines_escapedText cs 0, onto_some] at hletter
        simpa [escapedText, hrun] using hletter
    by_cases hline : c = '\n'
    · subst hline
      show basicLines .keeping ('\n' :: (escapedText true 0 cs ++ _)) = _
      rw [basicLines_char (.inr rfl) (by decide) fun h => absurd h (by decide),
        basicLines_escapedText cs 0, onto_some]
    · rw [escapedText_cons hquote hline, List.append_assoc,
        basicLines_spelled (spelled_escapedChar hquote hline), basicLines_escapedText cs 0, onto_some]

end Lines

theorem le_longestRun (q : Char) : ∀ (cs : List Char) (run : Nat), run ≤ longestRun q run cs
  | [], _ => Nat.le_refl _
  | c :: cs, run => by
    have hnext := le_longestRun q cs (run + 1)
    unfold longestRun
    split <;> omega

theorem longestRun_mono (q : Char) : ∀ (cs : List Char) {run run' : Nat}, run ≤ run' →
    longestRun q run cs ≤ longestRun q run' cs
  | [], _, _, h => h
  | c :: cs, run, run', h => by
    have hnext := longestRun_mono q cs (Nat.succ_le_succ h)
    unfold longestRun
    split <;> omega

/-- A text without three quotes in a row has none further on. -/
theorem longestRun_tail {q c : Char} {cs : List Char} {n : Nat} (h : longestRun q 0 (c :: cs) ≤ n) :
    longestRun q 0 cs ≤ n := by
  have hmono := longestRun_mono q cs (Nat.zero_le (0 + 1))
  unfold longestRun at h
  split at h <;> omega

theorem ne_three_quotes {q : Char} {cs : List Char} (h : longestRun q 0 cs ≤ 2) (t : List Char) :
    cs ≠ q :: q :: q :: t := by
  rintro rfl
  have hthree := le_longestRun q t (0 + 1 + 1 + 1)
  simp only [longestRun, if_true] at h
  omega

theorem literalLines_char {c : Char} {rest : List Char} (hc : isPlain c = true ∨ c = '\n')
    (hquote : c = '\'' → ∀ r, rest ≠ '\'' :: '\'' :: r) :
    literalLines (c :: rest) = onto c (literalLines rest) := by
  have hreturn : c ≠ '\r' := by
    rintro rfl
    simp [isPlain] at hc
  rw [literalLines.eq_6] <;> simp_all

theorem literalLines_append {rest : List Char} (hrest : ∀ r, rest ≠ '\'' :: r) :
    ∀ {cs : List Char}, (∀ c ∈ cs, isPlain c = true ∨ c = '\n') → longestRun '\'' 0 cs ≤ 2 →
      literalLines (cs ++ ('\'' :: '\'' :: '\'' :: rest)) = some (cs, rest)
  | [], _, _ => by simp [literalLines, hrest]
  | c :: cs, hplain, hrun => by
    obtain ⟨hc, hcs⟩ := List.forall_mem_cons.1 hplain
    have ih := literalLines_append hrest hcs (longestRun_tail hrun)
    by_cases hlast : c = '\'' ∧ (cs = [] ∨ cs = ['\''])
    · -- the last quotes of the text stand in front of the closing ones
      obtain ⟨rfl, rfl | rfl⟩ := hlast
      · simp [literalLines]
      · simp [literalLines]
    · rw [List.cons_append, literalLines_char hc, ih, onto_some]
      rintro rfl r hr
      match cs, hr with
      | [], _ => exact hlast ⟨rfl, .inl rfl⟩
      | [d], hr =>
        obtain ⟨rfl, -⟩ := List.cons.inj hr
        exact hlast ⟨rfl, .inr rfl⟩
      | d :: e :: cs, hr =>
        simp only [List.cons_append, List.cons.injEq] at hr
        obtain ⟨rfl, rfl, -⟩ := hr
        exact ne_three_quotes hrun cs rfl

/-! ## Any style -/

/-- A line break behind the opening quotes is dropped; text without line breaks does not start with
one. -/
theorem dropBreak_openingBreak {cs written : List Char}
    (h : '\n' ∉ cs → ∃ d t, written = d :: t ∧ d ≠ '\n' ∧ d ≠ '\r') :
    dropBreak (openingBreak cs ++ written) = written := by
  unfold openingBreak
  by_cases hline : '\n' ∈ cs
  · simp [hline, dropBreak]
  · obtain ⟨d, t, rfl, hd, hd'⟩ := h hline
    simp only [List.contains_eq_mem, hline, decide_false, Bool.false_eq_true, if_false,
      List.nil_append]
    unfold dropBreak
    split <;> simp_all

theorem exists_head_escapedText {cs : List Char} (hline : '\n' ∉ cs) (run : Nat)
    (close : List Char) : ∃ d t, escapedText true run cs ++ '"' :: close = d :: t ∧
      d ≠ '\n' ∧ d ≠ '\r' := by
  cases cs with
  | nil => exact ⟨'"', close, rfl, by decide, by decide⟩
  | cons c cs =>
    by_cases hquote : c = '"'
    · subst hquote
      by_cases hrun : run < 2
      · exact ⟨'"', _, by simp [escapedText, hrun]; rfl, by decide, by decide⟩
      · exact ⟨'\\', _, by simp [escapedText, hrun]; rfl, by decide, by decide⟩
    · have hline' : c ≠ '\n' := fun h => hline (h ▸ List.mem_cons_self ..)
      obtain ⟨d, w, hw, _, hd⟩ := (spelled_escapedChar hquote hline').head
      rw [escapedText_cons hquote hline', hw]
      exact ⟨d, _, rfl, hd⟩

theorem text_of_quote {t : List Char} (h : ∀ r, t ≠ '"' :: '"' :: r) : text ('"' :: t) = basic t := by
  unfold text
  split <;> simp_all [line]

theorem text_of_single {t : List Char} (h : ∀ r, t ≠ '\'' :: '\'' :: r) :
    text ('\'' :: t) = literal t := by
  unfold text
  split <;> simp_all [line]

/-- What a style needs of a text: no controls unless there are escapes, no single quote or no three
of them in a row where these end the text. -/
theorem styleOf_literal {cs : List Char} (h : styleOf cs = .literal) :
    cs.any isControl = false ∧ longestRun '\'' 0 cs = 0 ∧ '\n' ∉ cs := by
  unfold styleOf at h
  grind

theorem styleOf_literalLines {cs : List Char} (h : styleOf cs = .literalLines) :
    cs.any isControl = false ∧ longestRun '\'' 0 cs ≤ 2 := by
  unfold styleOf at h
  grind

theorem isPlain_of_isControl {c : Char} (h : ¬ isControl c = true) (hline : c ≠ '\n') :
    isPlain c = true := by
  by_cases htab : c = '\t'
  · subst htab
    rfl
  · simp [isControl, htab, hline] at h
    simp [isPlain, h]

theorem ne_of_longestRun_eq_zero {q : Char} {cs : List Char} (h : longestRun q 0 cs = 0) :
    ∀ c ∈ cs, c ≠ q := by
  induction cs with
  | nil => simp
  | cons d cs ih =>
    have hd : d ≠ q := by
      rintro rfl
      have hone := le_longestRun d cs (0 + 1)
      simp only [longestRun, if_true] at h
      omega
    exact List.forall_mem_cons.2 ⟨hd, ih (Nat.le_zero.1 (longestRun_tail (Nat.le_of_eq h)))⟩

/-! ## The four styles -/

section

variable {rest : List Char} (hdouble : ∀ r, rest ≠ '"' :: r) (hsingle : ∀ r, rest ≠ '\'' :: r)
include hdouble

theorem text_basic (cs : List Char) :
    text ('"' :: (escapedText false 0 cs ++ '"' :: rest)) = some (cs, rest) := by
  rw [text_of_quote, basic_escapedText]
  intro r hr
  rcases of_escapedText_eq_quote_cons hr with rfl | ⟨⟨hfalse, _⟩, _⟩
  · simp [escapedText, hdouble] at hr
  · cases hfalse

theorem text_basicLines (cs : List Char) :
    text ('"' :: '"' :: '"' ::
      (openingBreak cs ++ (escapedText true 0 cs ++ '"' :: '"' :: '"' :: rest))) =
        some (cs, rest) := by
  have hdrop : dropBreak (openingBreak cs ++ (escapedText true 0 cs ++ '"' :: '"' :: '"' :: rest)) =
      escapedText true 0 cs ++ '"' :: '"' :: '"' :: rest :=
    dropBreak_openingBreak fun hline => exists_head_escapedText hline 0 _
  have hlines := basicLines_escapedText hdouble cs 0
  simpa [text, hdrop] using hlines

omit hdouble
include hsingle

theorem text_literal {cs : List Char} (hstyle : styleOf cs = .literal) :
    text ('\'' :: (cs ++ '\'' :: rest)) = some (cs, rest) := by
  obtain ⟨hcontrol, hrun, hline⟩ := styleOf_literal hstyle
  have hquote := ne_of_longestRun_eq_zero hrun
  have hplain : ∀ c ∈ cs, isPlain c = true := fun c hc =>
    isPlain_of_isControl (List.any_eq_false.1 hcontrol c hc) fun h => hline (h ▸ hc)
  rw [text_of_single, literal_append rest hplain hquote]
  intro r hr
  cases cs with
  | nil => simp [hsingle] at hr
  | cons c cs => exact hquote c (List.mem_cons_self ..) (List.cons.inj hr).1

theorem text_literalLines {cs : List Char} (hstyle : styleOf cs = .literalLines) :
    text ('\'' :: '\'' :: '\'' :: (openingBreak cs ++ (cs ++ '\'' :: '\'' :: '\'' :: rest))) =
      some (cs, rest) := by
  obtain ⟨hcontrol, hrun⟩ := styleOf_literalLines hstyle
  have hplain : ∀ c ∈ cs, isPlain c = true ∨ c = '\n' := fun c hc => by
    by_cases hc' : c = '\n'
    · exact .inr hc'
    · exact .inl (isPlain_of_isControl (List.any_eq_false.1 hcontrol c hc) hc')
  have hdrop : dropBreak (openingBreak cs ++ (cs ++ '\'' :: '\'' :: '\'' :: rest)) =
      cs ++ '\'' :: '\'' :: '\'' :: rest := by
    refine dropBreak_openingBreak fun hline => ?_
    cases cs with
    | nil => exact ⟨'\'', _, rfl, by decide, by decide⟩
    | cons c cs =>
      refine ⟨c, _, rfl, fun h => hline (h ▸ List.mem_cons_self ..), ?_⟩
      rintro rfl
      simp [isControl] at hcontrol
  have hlines := literalLines_append hsingle hplain hrun
  simpa [text, hdrop] using hlines

include hdouble

/-- A text is read from what is written of it in the style that fits it. -/
theorem text_writeText (s : String) : text (writeText s ++ rest) = some (s.toList, rest) := by
  unfold writeText
  generalize s.toList = cs
  unfold writeIn
  cases hstyle : styleOf cs with
  | basic => simpa using text_basic hdouble cs
  | literal => simpa using text_literal hsingle hstyle
  | basicLines => simpa using text_basicLines hdouble cs
  | literalLines => simpa using text_literalLines hsingle hstyle

end

end Quorate.Toml.Quoted
