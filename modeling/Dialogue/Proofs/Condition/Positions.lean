import Dialogue.Condition.TokenStream
import Dialogue.Proofs.Condition.Stream

/-!
# Positions in a stream

The positions of a stream grow from token to token, up to the position of the end of the text or of
the fault that stopped the scan (`Ordered`). So a position cuts a stream in two: the tokens `before`
it, and the stream `behind` them, which starts at the position if anything does
(`before_and_behind_of_leads`).
-/

namespace Dialogue

/-- The position that a fault names. A comparison fails when it is evaluated, at no position. -/
def ConditionFault.pos? : ConditionFault → Option Nat
  | .unexpectedCharacter _ pos => some pos
  | .unterminatedString pos => some pos
  | .invalidNumber _ pos => some pos
  | .unknownOperator _ pos => some pos
  | .unexpectedToken _ pos => some pos
  | .trailingToken _ pos => some pos
  | .tooDeep _ pos => some pos
  | .notComparable _ _ _ => none

/-! ## Faults of a scan -/

namespace Scan

/-- If the scan fails, its fault names the position. -/
def FailsAt (s : Scan) (pos : Nat) : Prop :=
  ∀ f, s.found = .error f → f.pos? = some pos

theorem failsAt_doubled (pos : Nat) (op : BinaryOp) (c : Char) (cs : List Char) :
    (doubled pos op c cs).FailsAt pos := by
  unfold doubled
  split
  · rintro f ⟨⟩
    rfl
  · split
    · rintro f ⟨⟩
    · rintro f ⟨⟩
      rfl

theorem failsAt_maybeEquals (pos : Nat) (alone : Token) (op : BinaryOp) (c : Char)
    (cs : List Char) : (maybeEquals alone op c cs).FailsAt pos := by
  unfold maybeEquals
  split <;> rintro f ⟨⟩

theorem failsAt_string (pos : Nat) (cs : List Char) : (Scan.string pos cs).FailsAt pos := by
  unfold Scan.string
  split
  · rintro f ⟨⟩
  · rintro f ⟨⟩
    rfl

theorem failsAt_invalidNumber (pos : Nat) (taken rest : List Char) :
    (invalidNumber pos taken rest).FailsAt pos := by
  rintro f ⟨⟩
  rfl

theorem failsAt_number (pos : Nat) (cs : List Char) : (number pos cs).FailsAt pos := by
  unfold number
  dsimp only
  split
  · exact failsAt_invalidNumber _ _ _
  · split
    · exact failsAt_invalidNumber _ _ _
    · split
      · exact failsAt_invalidNumber _ _ _
      · split
        · rintro f ⟨⟩
        · exact failsAt_invalidNumber _ _ _

/-- A scan that fails names the position where it started. -/
theorem failsAt_scan (pos : Nat) (cs : List Char) : (scan pos cs).FailsAt pos := by
  unfold scan
  split
  · rintro f ⟨⟩
  · rintro f ⟨⟩
  · rintro f ⟨⟩
  · exact failsAt_doubled _ _ _ _
  · exact failsAt_doubled _ _ _ _
  · exact failsAt_doubled _ _ _ _
  · exact failsAt_maybeEquals _ _ _ _ _
  · exact failsAt_maybeEquals _ _ _ _ _
  · exact failsAt_maybeEquals _ _ _ _ _
  · exact failsAt_string _ _
  · split
    · exact failsAt_number _ _
    · split
      · rintro f ⟨⟩
      · rintro f ⟨⟩
        rfl

end Scan

/-! ## The order of a stream -/

namespace TokenStream

/-- The position of the next token, of the end of the text or of the fault that comes next. -/
def pos? : TokenStream → Option Nat
  | .endOfText pos => some pos
  | .fault f => f.pos?
  | .cons _ pos _ => some pos

/-- The positions grow, from `low` on. -/
def Ordered (low : Nat) : TokenStream → Prop
  | .endOfText pos => low ≤ pos
  | .fault f => ∃ pos, f.pos? = some pos ∧ low ≤ pos
  | .cons _ pos rest => low ≤ pos ∧ rest.Ordered (pos + 1)

theorem Ordered.mono {s : TokenStream} {low low' : Nat} (h : s.Ordered low) (hle : low' ≤ low) :
    s.Ordered low' := by
  cases s with
  | endOfText pos => exact hle.trans h
  | fault f =>
    obtain ⟨pos, hpos, hlow⟩ := h
    exact ⟨pos, hpos, hle.trans hlow⟩
  | cons token pos rest => exact ⟨hle.trans h.1, h.2⟩

theorem Ordered.exists_pos {s : TokenStream} {low : Nat} (h : s.Ordered low) :
    ∃ pos, s.pos? = some pos ∧ low ≤ pos := by
  cases s with
  | endOfText pos => exact ⟨pos, rfl, h⟩
  | fault f => exact h
  | cons token pos rest => exact ⟨pos, rfl, h.1⟩

/-- What a lexer hands out stands no earlier than the lexer does, and the lexer goes on behind
it. -/
theorem ordered_ofLexer (l : Lexer) : (ofLexer l).Ordered l.pos := by
  fun_induction ofLexer l with
  | case1 l f l' h =>
    have hfound := Outcome.map_eq_error_iff.mp (congrArg Prod.fst h)
    exact ⟨_, Scan.failsAt_scan _ _ f hfound, Nat.le_add_right _ _⟩
  | case2 l t l' h hend =>
    obtain ⟨token, -, rfl⟩ := Outcome.map_eq_ok_iff.mp (congrArg Prod.fst h)
    exact Nat.le_add_right _ _
  | case3 l t l' h hend ih =>
    obtain ⟨token, hfound, rfl⟩ := Outcome.map_eq_ok_iff.mp (congrArg Prod.fst h)
    obtain rfl : l.advance.2 = l' := congrArg Prod.snd h
    refine ⟨Nat.le_add_right _ _, ih.mono (Nat.add_le_add_left ?_ _)⟩
    -- Only at the end of the text nothing is taken.
    cases hrest : l.rest.dropWhile Text.isBlank with
    | nil =>
      rw [hrest] at hfound
      cases hfound
      exact absurd rfl hend
    | cons c cs => exact List.length_pos_iff.mpr (Scan.taken_scan_ne_nil _ c cs)

/-- The positions of a text grow. -/
theorem ordered_ofText (cs : List Char) : (ofText cs).Ordered 0 :=
  ordered_ofLexer (.ofText cs)

/-! ## What a position cuts off -/

/-- The tokens in front of a position. -/
def before (p : Nat) : TokenStream → List Token
  | .cons token pos rest => if pos < p then token :: rest.before p else []
  | _ => []

/-- The stream behind the tokens in front of a position. -/
def behind (p : Nat) : TokenStream → TokenStream
  | .cons token pos rest => if pos < p then rest.behind p else .cons token pos rest
  | s => s

/-- The position that a stream goes on at behind some tokens cuts it there. -/
theorem before_and_behind_of_leads {s rest : TokenStream} {ts : List Token} {low : Nat}
    (h : Leads s ts rest) (hs : s.Ordered low) :
    ∃ pos, rest.pos? = some pos ∧ low ≤ pos ∧ s.before pos = ts ∧ s.behind pos = rest := by
  induction h generalizing low with
  | nil rest =>
    obtain ⟨pos, hpos, hlow⟩ := hs.exists_pos
    refine ⟨pos, hpos, hlow, ?_⟩
    cases rest with
    | endOfText _ => exact ⟨rfl, rfl⟩
    | fault _ => exact ⟨rfl, rfl⟩
    | cons token pos' rest =>
      cases hpos
      simp [before, behind]
  | cons token pos _ ih =>
    obtain ⟨pos', hpos, hlow, hbefore, hbehind⟩ := ih hs.2
    have hlt : pos < pos' := hlow
    refine ⟨pos', hpos, hs.1.trans hlt.le, ?_, ?_⟩
    · rw [before, if_pos hlt, hbefore]
    · rw [behind, if_pos hlt, hbehind]

end TokenStream

end Dialogue
