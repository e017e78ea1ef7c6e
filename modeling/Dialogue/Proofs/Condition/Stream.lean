import Dialogue.Condition.TokenStream
import Dialogue.Proofs.Outcome
import Mathlib.Data.List.TakeWhile

/-!
# Streams and their tokens

A reader looks at the front of a stream. `Leads s ts rest` says that the stream `s` starts with the
tokens `ts` and goes on with `rest`, and `Stops bound s` that no operator of the strength `bound` or
above comes next. `tokens` are all tokens of a stream; a stream has them exactly when they lead to
the end of the text (`tokens_eq_ok_iff`).

The stream of a text is at its end from the start only if the text is blank
(`ofText_eq_endOfText_iff`): a scan of anything else finds a token or fails.
-/

namespace Dialogue

namespace TokenStream

/-! ## The front of a stream -/

/-- The stream starts with the tokens `ts` and goes on with `rest`. -/
inductive Leads : TokenStream → List Token → TokenStream → Prop where
  | nil (rest : TokenStream) : Leads rest [] rest
  | cons (token : Token) (pos : Nat) {s rest : TokenStream} {ts : List Token} :
      Leads s ts rest → Leads (.cons token pos s) (token :: ts) rest

theorem Leads.append {s mid rest : TokenStream} {ts us : List Token} (h : Leads s ts mid)
    (h' : Leads mid us rest) : Leads s (ts ++ us) rest := by
  induction h with
  | nil => exact h'
  | cons t pos _ ih => exact .cons t pos (ih h')

/-- A stream that starts with two lists of tokens goes on with the second behind the first. -/
theorem Leads.exists_of_append {s rest : TokenStream} {ts us : List Token}
    (h : Leads s (ts ++ us) rest) : ∃ mid, Leads s ts mid ∧ Leads mid us rest := by
  induction ts generalizing s with
  | nil => exact ⟨s, .nil s, h⟩
  | cons t ts ih =>
    cases h with
    | cons _ pos h =>
      obtain ⟨mid, hts, hus⟩ := ih h
      exact ⟨mid, .cons t pos hts, hus⟩

/-- The stream is sound here, and no operator of the strength `bound` or above comes next. -/
def Stops (bound : Nat) : TokenStream → Prop
  | .endOfText _ => True
  | .fault _ => False
  | .cons (.operator op) _ _ => op.strength < bound
  | .cons _ _ _ => True

theorem Stops.mono {bound bound' : Nat} {s : TokenStream} (h : s.Stops bound)
    (hle : bound ≤ bound') : s.Stops bound' := by
  unfold Stops at h ⊢
  split <;> simp_all
  omega

/-! ## All tokens -/

/-- The tokens of a stream without the end of the text. -/
def tokens (s : TokenStream) : Except ConditionFault (List Token) :=
  s.toList.map fun placed => (placed.map PlacedToken.token).dropLast

theorem toList_ne_nil {s : TokenStream} {placed : List PlacedToken} (h : s.toList = .ok placed) :
    placed ≠ [] := by
  cases s with
  | endOfText pos =>
    cases h
    exact List.cons_ne_nil _ _
  | fault f => cases h
  | cons token pos rest =>
    obtain ⟨placed', -, rfl⟩ := Outcome.map_eq_ok_iff.1 h
    exact List.cons_ne_nil _ _

theorem tokens_cons (token : Token) (pos : Nat) (rest : TokenStream) :
    (cons token pos rest).tokens = rest.tokens.map (token :: ·) := by
  cases h : rest.toList with
  | error f => simp [tokens, toList, h]
  | ok placed => simp [tokens, toList, h, List.dropLast_cons_of_ne_nil, toList_ne_nil h]

/-- A stream has tokens when they lead to the end of the text. -/
theorem tokens_eq_ok_iff {s : TokenStream} {ts : List Token} :
    s.tokens = .ok ts ↔ ∃ pos, Leads s ts (.endOfText pos) := by
  induction s generalizing ts with
  | endOfText pos =>
    constructor
    · intro h
      cases h
      exact ⟨pos, .nil _⟩
    · rintro ⟨pos, h⟩
      cases h
      rfl
  | fault f =>
    constructor
    · intro h
      cases h
    · rintro ⟨pos, h⟩
      cases h
  | cons token pos rest ih =>
    rw [tokens_cons, Outcome.map_eq_ok_iff]
    constructor
    · rintro ⟨us, hus, rfl⟩
      obtain ⟨pos', h⟩ := ih.1 hus
      exact ⟨pos', .cons token pos h⟩
    · rintro ⟨pos', h⟩
      cases h with
      | cons _ _ h => exact ⟨_, ih.2 ⟨pos', h⟩, rfl⟩

/-! ## Blank texts -/

theorem found_doubled_ne_endOfText (pos : Nat) (op : BinaryOp) (c : Char) (cs : List Char) :
    (Scan.doubled pos op c cs).found ≠ .ok .endOfText := by
  unfold Scan.doubled
  split
  · simp
  · split <;> simp

theorem found_maybeEquals_ne_endOfText {alone : Token} (h : alone ≠ .endOfText) (op : BinaryOp)
    (c : Char) (cs : List Char) : (Scan.maybeEquals alone op c cs).found ≠ .ok .endOfText := by
  unfold Scan.maybeEquals
  split
  · simp
  · simpa using h

theorem found_number_ne_endOfText (pos : Nat) (cs : List Char) :
    (Scan.number pos cs).found ≠ .ok .endOfText := by
  unfold Scan.number
  dsimp only
  split
  · simp [Scan.invalidNumber]
  · split
    · simp [Scan.invalidNumber]
    · split
      · simp [Scan.invalidNumber]
      · split <;> simp [Scan.invalidNumber]

theorem ofWord_ne_endOfText (word : List Char) : Token.ofWord word ≠ .endOfText := by
  unfold Token.ofWord Token.ofKeyword?
  split
  · simp
  · split
    · simp
    · split <;> simp

/-- A scan finds the end of the text only at the end. -/
theorem found_scan_ne_endOfText (pos : Nat) (c : Char) (cs : List Char) :
    (scan pos (c :: cs)).found ≠ .ok .endOfText := by
  unfold scan
  split
  · contradiction
  · simp [Scan.single]
  · simp [Scan.single]
  · exact found_doubled_ne_endOfText _ _ _ _
  · exact found_doubled_ne_endOfText _ _ _ _
  · exact found_doubled_ne_endOfText _ _ _ _
  · exact found_maybeEquals_ne_endOfText (Token.noConfusion) _ _ _
  · exact found_maybeEquals_ne_endOfText (Token.noConfusion) _ _ _
  · exact found_maybeEquals_ne_endOfText (Token.noConfusion) _ _ _
  · unfold Scan.string
    split <;> simp
  · split
    · exact found_number_ne_endOfText _ _
    · split
      · simpa [Scan.word] using ofWord_ne_endOfText _
      · simp

theorem ofLexer_eq_endOfText_iff {l : Lexer} :
    (∃ pos, ofLexer l = .endOfText pos) ↔ ∃ pos, l.advance.1 = .ok ⟨.endOfText, pos⟩ := by
  rw [ofLexer]
  split
  · next h => simp [h]
  · next t l' h =>
    obtain ⟨token, pos⟩ := t
    by_cases hend : token = .endOfText <;> simp [h, hend]

/-- A text has no token exactly when it is blank. -/
theorem ofText_eq_endOfText_iff {cs : List Char} :
    (∃ pos, ofText cs = .endOfText pos) ↔ cs.all Text.isBlank = true := by
  rw [ofText, ofLexer_eq_endOfText_iff]
  simp only [Lexer.advance, Lexer.ofText, Outcome.map_eq_ok_iff]
  rw [List.all_eq_true, ← List.dropWhile_eq_nil_iff]
  cases cs.dropWhile Text.isBlank with
  | nil => simp [scan]
  | cons c rest =>
    constructor
    · rintro ⟨pos, token, hfound, htoken⟩
      cases htoken
      exact absurd hfound (found_scan_ne_endOfText _ c rest)
    · intro h
      cases h

end TokenStream

end Dialogue
