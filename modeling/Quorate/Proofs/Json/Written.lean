/-
Written values. Both forms of a value without floats, compact and pretty, are scanned into the
tokens of one document, in which numbers and texts stand as they are spelled.
-/
import Quorate.Json.Writer
import Quorate.Proofs.Json.Numeral
import Quorate.Proofs.Json.Quoted
import Quorate.Proofs.Json.Tokens

namespace Quorate.Json

open Text

namespace Value

/-- A value without floats. -/
inductive Whole : Value → Prop
  | null : Whole null
  | bool (b : Bool) : Whole (bool b)
  | int (i : Int) : Whole (number (.int i))
  | string (s : String) : Whole (string s)
  | array {items : List Value} : (∀ v ∈ items, Whole v) → Whole (array items)
  | object {members : List (String × Value)} : (∀ m ∈ members, Whole m.2) → Whole (object members)

theorem whole_array {items : List Value} : (array items).Whole ↔ ∀ v ∈ items, v.Whole :=
  ⟨fun | .array h => h, .array⟩

theorem whole_object {members : List (String × Value)} :
    (object members).Whole ↔ ∀ m ∈ members, m.2.Whole :=
  ⟨fun | .object h => h, .object⟩

mutual

def decideWhole : (v : Value) → Decidable v.Whole
  | null => isTrue .null
  | bool b => isTrue (.bool b)
  | number (.int i) => isTrue (.int i)
  | number (.float _) => isFalse nofun
  | string s => isTrue (.string s)
  | array items => @decidable_of_iff' _ _ whole_array (decideItems items)
  | object members => @decidable_of_iff' _ _ whole_object (decideMembers members)

def decideItems : (vs : List Value) → Decidable (∀ v ∈ vs, v.Whole)
  | [] => isTrue nofun
  | v :: vs => @decidable_of_iff' _ _ List.forall_mem_cons
    (@instDecidableAnd _ _ (decideWhole v) (decideItems vs))

def decideMembers : (ms : List (String × Value)) → Decidable (∀ m ∈ ms, m.2.Whole)
  | [] => isTrue nofun
  | (_, v) :: ms => @decidable_of_iff' _ _ List.forall_mem_cons
    (@instDecidableAnd _ _ (decideWhole v) (decideMembers ms))

end

instance : DecidablePred Whole := decideWhole

mutual

/-- The document that is written of a value. Of a float, whose spelling is left open here, it is
null. -/
def toDoc : Value → Doc
  | null => .null
  | bool b => .bool b
  | number (.int i) => .number (.ofInt i)
  | number (.float _) => .null
  | string s => .text (.ofText s)
  | array items => .array (docsOf items)
  | object members => .object (membersOf members)

def docsOf : List Value → List Doc
  | [] => []
  | v :: vs => toDoc v :: docsOf vs

def membersOf : List (String × Value) → List (Quoted × Doc)
  | [] => []
  | (k, v) :: ms => (.ofText k, toDoc v) :: membersOf ms

end

theorem docsOf_eq_map (vs : List Value) : docsOf vs = vs.map toDoc := by
  induction vs with
  | nil => rfl
  | cons v vs ih => rw [docsOf, ih, List.map_cons]

theorem membersOf_eq_map (ms : List (String × Value)) :
    membersOf ms = ms.map fun m => (.ofText m.1, m.2.toDoc) := by
  induction ms with
  | nil => rfl
  | cons m ms ih => rw [membersOf, ih, List.map_cons]

/-! ## Scanning -/

/-- Characters are scanned into tokens, and the bytes behind them by themselves. -/
def Scans (cs : List Char) (ts : List Token) (rest : List UInt8) : Prop :=
  Token.scan? (utf8 cs ++ rest) = (ts ++ ·) <$> Token.scan? rest

theorem Scans.append {cs ds : List Char} {ts us : List Token} {rest : List UInt8}
    (h : Scans cs ts (utf8 ds ++ rest)) (h' : Scans ds us rest) :
    Scans (cs ++ ds) (ts ++ us) rest := by
  unfold Scans at h h' ⊢
  rw [utf8_append, List.append_assoc, h, h']
  cases Token.scan? rest with
  | none => rfl
  | some _ => simp

/-- What may follow a word. -/
def EndsWord (bs : List UInt8) : Prop := ∀ b rest, bs = b :: rest → Token.isWord b = false

theorem endsWord_nil : EndsWord [] := nofun

theorem endsWord_cons {b : UInt8} (h : Token.isWord b = false) (rest : List UInt8) :
    EndsWord (b :: rest) := by
  rintro _ _ heq
  cases heq
  exact h

theorem scans_punctuation {c : Char} {b : UInt8} {t : Token} (hc : utf8 [c] = [b])
    (hspace : Token.isSpace b = false) (hquote : b ≠ 34) (ht : Token.punctuation? b = some t)
    (rest : List UInt8) : Scans [c] [t] rest := by
  unfold Scans
  rw [hc, List.singleton_append, Token.scan?]
  simp [hspace, hquote, ht]

theorem scans_bracketOpen (rest : List UInt8) : Scans ['['] [.bracketOpen] rest :=
  scans_punctuation rfl rfl (by decide) rfl rest

theorem scans_bracketClose (rest : List UInt8) : Scans [']'] [.bracketClose] rest :=
  scans_punctuation rfl rfl (by decide) rfl rest

theorem scans_braceOpen (rest : List UInt8) : Scans ['\x7b'] [.braceOpen] rest :=
  scans_punctuation rfl rfl (by decide) rfl rest

theorem scans_braceClose (rest : List UInt8) : Scans ['\x7d'] [.braceClose] rest :=
  scans_punctuation rfl rfl (by decide) rfl rest

theorem scans_comma (rest : List UInt8) : Scans [','] [.comma] rest :=
  scans_punctuation rfl rfl (by decide) rfl rest

theorem scans_colon (rest : List UInt8) : Scans [':'] [.colon] rest :=
  scans_punctuation rfl rfl (by decide) rfl rest

theorem scans_spaces {cs : List Char} (h : ∀ c ∈ cs, c = ' ' ∨ c = '\n') (rest : List UInt8) :
    Scans cs [] rest := by
  have hskip : Token.scan? (utf8 cs ++ rest) = Token.scan? rest := by
    induction cs with
    | nil => rfl
    | cons c cs ih =>
      obtain ⟨hc, hcs⟩ := List.forall_mem_cons.1 h
      rw [← ih hcs, utf8_cons]
      rcases hc with rfl | rfl
      · exact (Token.scan?.eq_2 _ _).trans (if_pos rfl)
      · exact (Token.scan?.eq_2 _ _).trans (if_pos rfl)
  unfold Scans
  rw [hskip]
  cases Token.scan? rest <;> rfl

theorem scans_newline (level : Nat) (rest : List UInt8) : Scans (newline level) [] rest := by
  refine scans_spaces (fun c hc => ?_) rest
  rcases List.mem_cons.1 hc with rfl | hc
  · exact .inr rfl
  · exact .inl (List.eq_of_mem_replicate hc)

theorem utf8_quote (s : String) : utf8 (quote s) = 34 :: ((Quoted.ofText s).raw ++ [34]) := by
  rw [quote, utf8_cons, utf8_append]
  rfl

theorem scans_quote (s : String) (rest : List UInt8) :
    Scans (quote s) [.quoted (.ofText s)] rest := by
  have hsplit : Quoted.split? ((Quoted.ofText s).raw ++ 34 :: rest) =
      some ((Quoted.ofText s).raw, rest) := Quoted.split?_written s.toList rest
  unfold Scans
  rw [utf8_quote, List.cons_append, List.append_assoc, List.singleton_append, Token.scan?]
  simp only [show Token.isSpace 34 = false from rfl, Bool.false_eq_true, if_false, if_true]
  split
  · rename_i hnone
    rw [hsplit] at hnone
    cases hnone
  · rename_i hsome
    rw [hsplit] at hsome
    cases hsome
    rfl

/-- A byte of a word is no blank, no quote and no token by itself. -/
theorem of_isWord : ∀ n : Fin 256, Token.isWord (UInt8.ofNat n.val) = true →
    Token.isSpace (UInt8.ofNat n.val) = false ∧ UInt8.ofNat n.val ≠ 34 ∧
      Token.punctuation? (UInt8.ofNat n.val) = none := by
  decide +kernel

theorem scans_word {cs : List Char} {t : Token} (hne : utf8 cs ≠ [])
    (hword : ∀ b ∈ utf8 cs, Token.isWord b = true) (ht : Token.ofWord? (utf8 cs) = some t)
    {rest : List UInt8} (hrest : EndsWord rest) : Scans cs [t] rest := by
  unfold Scans
  generalize utf8 cs = word at hne hword ht
  obtain ⟨b, bs, rfl⟩ := List.exists_cons_of_ne_nil hne
  obtain ⟨hb, hbs⟩ := List.forall_mem_cons.1 hword
  have hclass := of_isWord ⟨b.toNat, b.toNat_lt⟩
  simp only [UInt8.ofNat_toNat] at hclass
  obtain ⟨hspace, hquote, hpunctuation⟩ := hclass hb
  have hnone : rest.takeWhile Token.isWord = [] ∧ rest.dropWhile Token.isWord = rest := by
    cases rest with
    | nil => exact ⟨rfl, rfl⟩
    | cons c cs => simp [hrest c cs rfl]
  have htake : (bs ++ rest).takeWhile Token.isWord = bs := by
    rw [List.takeWhile_append_of_pos hbs, hnone.1, List.append_nil]
  have hdrop : (bs ++ rest).dropWhile Token.isWord = rest := by
    rw [List.dropWhile_append_of_pos hbs, hnone.2]
  rw [List.cons_append, Token.scan?]
  simp [hspace, hquote, hpunctuation, htake, hdrop, ht]

/-- What is written of an integer are digits, behind a minus if need be. -/
theorem mem_writeInt {i : Int} {b : UInt8} (h : b ∈ utf8 (Number.writeInt i)) :
    b = 45 ∨ Numeral.isDigit b = true := by
  cases i with
  | ofNat n => exact .inr (Numeral.isDigit_of_mem_digitBytes h)
  | negSucc n =>
    rw [Numeral.writeInt_negSucc, List.mem_cons] at h
    exact h.imp_right Numeral.isDigit_of_mem_digitBytes

theorem writeInt_ne_nil (i : Int) : utf8 (Number.writeInt i) ≠ [] := by
  cases i with
  | ofNat n => exact Numeral.digitBytes_ne_nil n
  | negSucc n =>
    rw [Numeral.writeInt_negSucc]
    exact List.cons_ne_nil _ _

theorem ofWord?_writeInt (i : Int) :
    Token.ofWord? (utf8 (Number.writeInt i)) = some (.numeral (.ofInt i)) := by
  have hletter : ∀ {b : UInt8} {bs : List UInt8}, b ≠ 45 → Numeral.isDigit b = false →
      utf8 (Number.writeInt i) ≠ b :: bs := by
    intro b bs hminus hdigit heq
    rcases mem_writeInt (i := i) (heq ▸ List.mem_cons_self ..) with h | h
    · exact hminus h
    · rw [hdigit] at h
      cases h
  unfold Token.ofWord?
  rw [if_neg (hletter (by decide) (by decide)), if_neg (hletter (by decide) (by decide)),
    if_neg (hletter (by decide) (by decide)), Numeral.ofBytes?_writeInt]
  rfl

theorem scans_writeInt (i : Int) {rest : List UInt8} (hrest : EndsWord rest) :
    Scans (Number.writeInt i) [.numeral (.ofInt i)] rest := by
  refine scans_word (writeInt_ne_nil i) (fun b hb => ?_) (ofWord?_writeInt i) hrest
  rcases mem_writeInt hb with rfl | hb
  · rfl
  · simp [Token.isWord, hb]

/-- The words that are not numerals. -/
theorem scans_letters {cs : List Char} {t : Token} {b : UInt8} {bs : List UInt8}
    (hcs : utf8 cs = b :: bs) (hword : (b :: bs).all Token.isWord = true)
    (ht : Token.ofWord? (b :: bs) = some t) {rest : List UInt8} (hrest : EndsWord rest) :
    Scans cs [t] rest := by
  rw [← hcs] at hword ht
  exact scans_word (hcs ▸ List.cons_ne_nil b bs) (List.all_eq_true.1 hword) ht hrest

theorem scans_null {rest : List UInt8} (hrest : EndsWord rest) :
    Scans ['n', 'u', 'l', 'l'] [.null] rest :=
  scans_letters rfl rfl rfl hrest

theorem scans_bool (b : Bool) {rest : List UInt8} (hrest : EndsWord rest) :
    Scans (bool b).compact [.bool b] rest := by
  cases b with
  | true => exact scans_letters rfl rfl rfl hrest
  | false => exact scans_letters rfl rfl rfl hrest

/-! ## Compact -/

theorem endsWord_compactItems (vs : List Value) (rest : List UInt8) :
    EndsWord (utf8 (compactItems vs) ++ rest) := by
  cases vs <;> exact endsWord_cons rfl _

theorem endsWord_compactMembers (ms : List (String × Value)) (rest : List UInt8) :
    EndsWord (utf8 (compactMembers ms) ++ rest) := by
  cases ms <;> exact endsWord_cons rfl _

mutual

theorem scans_compact : ∀ {v : Value}, v.Whole → ∀ {rest : List UInt8}, EndsWord rest →
    Scans v.compact v.toDoc.tokens rest
  | null, _, _, hrest => scans_null hrest
  | bool b, _, _, hrest => scans_bool b hrest
  | number (.int i), _, _, hrest => scans_writeInt i hrest
  | string s, _, rest, _ => scans_quote s rest
  | array [], _, rest, _ => (scans_bracketOpen _).append (scans_bracketClose rest)
  | array (v :: vs), .array h, rest, _ => by
    obtain ⟨hv, hvs⟩ := List.forall_mem_cons.1 h
    have hitem := scans_compact hv (endsWord_compactItems vs rest)
    exact (scans_bracketOpen _).append (hitem.append (scans_compactItems hvs rest))
  | object [], _, rest, _ => (scans_braceOpen _).append (scans_braceClose rest)
  | object ((k, v) :: ms), .object h, rest, _ => by
    obtain ⟨hv, hms⟩ := List.forall_mem_cons.1 h
    have hmember := scans_compact hv (endsWord_compactMembers ms rest)
    exact (scans_braceOpen _).append ((scans_quote k _).append
      ((scans_colon _).append (hmember.append (scans_compactMembers hms rest))))

theorem scans_compactItems : ∀ {vs : List Value}, (∀ v ∈ vs, v.Whole) → ∀ (rest : List UInt8),
    Scans (compactItems vs) (Doc.itemTokens (docsOf vs)) rest
  | [], _, rest => scans_bracketClose rest
  | v :: vs, h, rest => by
    obtain ⟨hv, hvs⟩ := List.forall_mem_cons.1 h
    have hitem := scans_compact hv (endsWord_compactItems vs rest)
    exact (scans_comma _).append (hitem.append (scans_compactItems hvs rest))

theorem scans_compactMembers : ∀ {ms : List (String × Value)}, (∀ m ∈ ms, m.2.Whole) →
    ∀ (rest : List UInt8), Scans (compactMembers ms) (Doc.memberTokens (membersOf ms)) rest
  | [], _, rest => scans_braceClose rest
  | (k, v) :: ms, h, rest => by
    obtain ⟨hv, hms⟩ := List.forall_mem_cons.1 h
    have hmember := scans_compact hv (endsWord_compactMembers ms rest)
    exact (scans_comma _).append ((scans_quote k _).append
      ((scans_colon _).append (hmember.append (scans_compactMembers hms rest))))

end

/-! ## Pretty -/

theorem endsWord_prettyItems (level : Nat) (vs : List Value) (rest : List UInt8) :
    EndsWord (utf8 (prettyItems level vs) ++ rest) := by
  cases vs <;> exact endsWord_cons rfl _

theorem endsWord_prettyMembers (level : Nat) (ms : List (String × Value)) (rest : List UInt8) :
    EndsWord (utf8 (prettyMembers level ms) ++ rest) := by
  cases ms <;> exact endsWord_cons rfl _

/-- The colon behind a key, and the blank behind the colon. -/
theorem scans_pairing {cs : List Char} {ts : List Token} {rest : List UInt8}
    (h : Scans cs ts rest) :
    Scans (':' :: ' ' :: cs) (.colon :: ts) rest :=
  (scans_colon _).append ((scans_spaces (fun _ hc => .inl (List.mem_singleton.1 hc)) _).append h)

mutual

theorem scans_pretty : ∀ {v : Value}, v.Whole → ∀ (level : Nat) {rest : List UInt8}, EndsWord rest →
    Scans (v.pretty level) v.toDoc.tokens rest
  | null, _, _, _, hrest => scans_null hrest
  | bool true, _, _, _, hrest => scans_bool true hrest
  | bool false, _, _, _, hrest => scans_bool false hrest
  | number (.int i), _, _, _, hrest => scans_writeInt i hrest
  | string s, _, _, rest, _ => scans_quote s rest
  | array [], _, _, rest, _ => (scans_bracketOpen _).append (scans_bracketClose rest)
  | array (v :: vs), .array h, level, rest, _ => by
    obtain ⟨hv, hvs⟩ := List.forall_mem_cons.1 h
    have hitem := scans_pretty hv (level + 1) (endsWord_prettyItems level vs rest)
    exact (scans_bracketOpen _).append
      (((scans_newline _ _).append hitem).append (scans_prettyItems hvs level rest))
  | object [], _, _, rest, _ => (scans_braceOpen _).append (scans_braceClose rest)
  | object ((k, v) :: ms), .object h, level, rest, _ => by
    obtain ⟨hv, hms⟩ := List.forall_mem_cons.1 h
    have hmember := scans_pretty hv (level + 1) (endsWord_prettyMembers level ms rest)
    exact (scans_braceOpen _).append (((scans_newline _ _).append (scans_quote k _)).append
      (scans_pairing (hmember.append (scans_prettyMembers hms level rest))))

theorem scans_prettyItems : ∀ {vs : List Value}, (∀ v ∈ vs, v.Whole) →
    ∀ (level : Nat) (rest : List UInt8),
      Scans (prettyItems level vs) (Doc.itemTokens (docsOf vs)) rest
  | [], _, level, rest => (scans_newline level _).append (scans_bracketClose rest)
  | v :: vs, h, level, rest => by
    obtain ⟨hv, hvs⟩ := List.forall_mem_cons.1 h
    have hitem := scans_pretty hv (level + 1) (endsWord_prettyItems level vs rest)
    exact (scans_comma _).append
      (((scans_newline _ _).append hitem).append (scans_prettyItems hvs level rest))

theorem scans_prettyMembers : ∀ {ms : List (String × Value)}, (∀ m ∈ ms, m.2.Whole) →
    ∀ (level : Nat) (rest : List UInt8),
      Scans (prettyMembers level ms) (Doc.memberTokens (membersOf ms)) rest
  | [], _, level, rest => (scans_newline level _).append (scans_braceClose rest)
  | (k, v) :: ms, h, level, rest => by
    obtain ⟨hv, hms⟩ := List.forall_mem_cons.1 h
    have hmember := scans_pretty hv (level + 1) (endsWord_prettyMembers level ms rest)
    exact (scans_comma _).append (((scans_newline _ _).append (scans_quote k _)).append
      (scans_pairing (hmember.append (scans_prettyMembers hms level rest))))

end

/-! ## Documents -/

theorem ofText?_of_scans {v : Value} {cs : List Char} (h : Scans cs v.toDoc.tokens []) :
    Doc.ofText? (String.ofList cs) = some v.toDoc := by
  have hscan : Token.scan? (utf8 cs) = some v.toDoc.tokens := by
    unfold Scans at h
    rwa [List.append_nil, Token.scan?, Option.map_eq_map, Option.map_some, List.append_nil] at h
  unfold Doc.ofText? Doc.ofBytes?
  rw [bytes_ofList, hscan, Option.bind_eq_bind, Option.bind_some, Doc.ofTokens?_tokens]

/-- Both forms of a value without floats are texts of its document. -/
theorem ofText?_toText {v : Value} (h : v.Whole) : Doc.ofText? v.toText = some v.toDoc :=
  ofText?_of_scans (scans_compact h endsWord_nil)

theorem ofText?_toPretty {v : Value} (h : v.Whole) : Doc.ofText? v.toPretty = some v.toDoc :=
  ofText?_of_scans (scans_pretty h 0 endsWord_nil)

end Value

end Quorate.Json
