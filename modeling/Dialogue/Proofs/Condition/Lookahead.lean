import Dialogue.Proofs.Condition.Cutting

/-!
# Looking ahead

A lexer can be asked to take the next token and to show it. What it answers to a request for the
next token depends on what it was asked before, and so does where it stands: a token that was shown
waits in its slot, and a scan that failed leaves the lexer somewhere in the middle of an operator, a
string or a numeral.

None of this shows. The text has one sequence of results, those of a lexer that is only ever asked
to take tokens, and `Follows` reads the answers to any requests off this sequence with an index into
it and nothing else. A lexer that stands at an index (`StandsAt`) answers as the sequence says and
stands at an index again afterwards, so the answers of a run follow the sequence
(`follows_answers`).

The sequence comes to the end of the text, as every scan in front of the end takes something, and
stays there (`exists_end`).
-/

namespace Dialogue

/-- What a lexer can be asked for: to show the next token, or to take it. -/
inductive Request where
  | peek
  | next
  deriving DecidableEq, Repr

/-- The answers to some requests, read off a sequence of results from the index `k` on. A request to
take a token goes on to the next index. A request to show one stays, but for a fault, which is not
kept. -/
inductive Follows (results : Nat → Except ConditionFault PlacedToken) :
    Nat → List Request → List (Except ConditionFault PlacedToken) → Prop
  | nil (k : Nat) : Follows results k [] []
  | next {k : Nat} {requests : List Request} {answers : List (Except ConditionFault PlacedToken)} :
      Follows results (k + 1) requests answers →
      Follows results k (.next :: requests) (results k :: answers)
  | peekToken {k : Nat} {requests : List Request}
      {answers : List (Except ConditionFault PlacedToken)} {t : PlacedToken} :
      results k = .ok t → Follows results k requests answers →
      Follows results k (.peek :: requests) (results k :: answers)
  | peekFault {k : Nat} {requests : List Request}
      {answers : List (Except ConditionFault PlacedToken)} {e : ConditionFault} :
      results k = .error e → Follows results (k + 1) requests answers →
      Follows results k (.peek :: requests) (results k :: answers)

/-- Every answer is a result, and the index never goes back. -/
theorem Follows.exists_of_mem {results : Nat → Except ConditionFault PlacedToken} {k : Nat}
    {requests : List Request} {answers : List (Except ConditionFault PlacedToken)}
    (h : Follows results k requests answers) : ∀ a ∈ answers, ∃ j, k ≤ j ∧ a = results j := by
  have hcons : ∀ {k m answers}, k ≤ m → (∀ a ∈ answers, ∃ j, m ≤ j ∧ a = results j) →
      ∀ a ∈ results k :: answers, ∃ j, k ≤ j ∧ a = results j := by
    intro k m answers hm ih a ha
    rcases List.mem_cons.mp ha with rfl | ha
    · exact ⟨k, le_rfl, rfl⟩
    · obtain ⟨j, hj, heq⟩ := ih a ha
      exact ⟨j, hm.trans hj, heq⟩
  induction h with
  | nil => simp
  | next _ ih => exact hcons (Nat.le_succ _) ih
  | peekToken _ _ ih => exact hcons le_rfl ih
  | peekFault _ _ ih => exact hcons (Nat.le_succ _) ih

/-- What the sequence keeps from some result on, the answers keep too. -/
theorem Follows.pairwise {results : Nat → Except ConditionFault PlacedToken} {k : Nat}
    {requests : List Request} {answers : List (Except ConditionFault PlacedToken)}
    {R : Except ConditionFault PlacedToken → Except ConditionFault PlacedToken → Prop}
    (hresults : ∀ i j, i ≤ j → R (results i) (results j)) (h : Follows results k requests answers) :
    answers.Pairwise R := by
  have hcons : ∀ {k m requests answers}, k ≤ m → Follows results m requests answers →
      answers.Pairwise R → (results k :: answers).Pairwise R := by
    intro k m requests answers hm hfollows ih
    refine List.pairwise_cons.mpr ⟨fun a ha => ?_, ih⟩
    obtain ⟨j, hj, rfl⟩ := hfollows.exists_of_mem a ha
    exact hresults k j (hm.trans hj)
  induction h with
  | nil => exact .nil
  | next hfollows ih => exact hcons (Nat.le_succ _) hfollows ih
  | peekToken _ hfollows ih => exact hcons le_rfl hfollows ih
  | peekFault _ hfollows ih => exact hcons (Nat.le_succ _) hfollows ih

namespace Lexer

/-- What a lexer answers to a request, and the lexer behind it. -/
def ask (l : Lexer) : Request → Except ConditionFault PlacedToken × Lexer
  | .peek => l.peek
  | .next => l.next

/-- The answers of a lexer to some requests, made one after the other. A fault does not end them. -/
def answers (l : Lexer) : List Request → List (Except ConditionFault PlacedToken)
  | [] => []
  | q :: rest => (l.ask q).1 :: (l.ask q).2.answers rest

/-- The lexer after so many requests to take a token. -/
def behind (l : Lexer) : Nat → Lexer
  | 0 => l
  | k + 1 => (l.behind k).next.2

/-- What a lexer that is only asked to take tokens answers, counted from zero. -/
def result (l : Lexer) (k : Nat) : Except ConditionFault PlacedToken := (l.behind k).next.1

/-! ## Without lookahead -/

theorem next_of_ahead_eq_none {l : Lexer} (h : l.ahead = none) : l.next = l.advance := by
  rw [next, h]

theorem ahead_behind {l : Lexer} (h : l.ahead = none) (k : Nat) : (l.behind k).ahead = none := by
  induction k with
  | zero => exact h
  | succ k ih =>
    rw [behind, next_of_ahead_eq_none ih]
    rfl

/-- Taking one token and then so many more. -/
theorem behind_succ (l : Lexer) (k : Nat) : l.behind (k + 1) = l.next.2.behind k := by
  induction k with
  | zero => rfl
  | succ k ih => rw [behind, ih, behind]

theorem result_succ (l : Lexer) (k : Nat) : l.result (k + 1) = l.next.2.result k := by
  rw [result, behind_succ, result]

/-- A lexer without lookahead goes on with the next of its results, and stands behind it. -/
theorem advance_behind {l : Lexer} (h : l.ahead = none) (k : Nat) :
    (l.behind k).advance = (l.result k, l.behind (k + 1)) := by
  rw [result, behind, next_of_ahead_eq_none (ahead_behind h k)]

/-! ## Where a lexer stands -/

/-- The lexer `l'` stands at the index `k` of the results of `l`: it is about to scan the next of
them, or it has scanned it ahead. -/
inductive StandsAt (l : Lexer) (k : Nat) : Lexer → Prop
  | bare : StandsAt l k (l.behind k)
  | ahead {t : PlacedToken} : l.result k = .ok t →
      StandsAt l k { l.behind (k + 1) with ahead := some t }

variable {l l' : Lexer} {k : Nat}

/-- Taking a token goes on to the next index. -/
theorem StandsAt.next (hl : l.ahead = none) (h : l.StandsAt k l') :
    l'.next.1 = l.result k ∧ l.StandsAt (k + 1) l'.next.2 := by
  cases h with
  | bare =>
    rw [next_of_ahead_eq_none (ahead_behind hl k), advance_behind hl]
    exact ⟨rfl, .bare⟩
  | ahead hresult =>
    have hbehind : { l.behind (k + 1) with ahead := none } = l.behind (k + 1) := by
      rw [← ahead_behind hl (k + 1)]
    refine ⟨hresult.symm, ?_⟩
    show l.StandsAt (k + 1) { l.behind (k + 1) with ahead := none }
    rw [hbehind]
    exact .bare

/-- Showing a token stays at its index, whether it had been scanned ahead or not. -/
theorem StandsAt.peek_of_token {t : PlacedToken} (hl : l.ahead = none) (h : l.StandsAt k l')
    (hresult : l.result k = .ok t) : l'.peek.1 = .ok t ∧ l.StandsAt k l'.peek.2 := by
  cases h with
  | bare =>
    rw [peek, ahead_behind hl k, advance_behind hl, hresult]
    exact ⟨rfl, .ahead hresult⟩
  | ahead hahead => exact ⟨hahead.symm.trans hresult, .ahead hahead⟩

/-- A fault is shown once: nothing is kept, and the lexer stands behind it. -/
theorem StandsAt.peek_of_fault {e : ConditionFault} (hl : l.ahead = none) (h : l.StandsAt k l')
    (hresult : l.result k = .error e) : l'.peek.1 = .error e ∧ l.StandsAt (k + 1) l'.peek.2 := by
  cases h with
  | bare =>
    rw [peek, ahead_behind hl k, advance_behind hl, hresult]
    exact ⟨rfl, .bare⟩
  | ahead hahead =>
    rw [hresult] at hahead
    cases hahead

/-- A lexer that stands at an index answers all further requests as the results say from there
on. -/
theorem StandsAt.follows (hl : l.ahead = none) (h : l.StandsAt k l') (requests : List Request) :
    Follows l.result k requests (l'.answers requests) := by
  induction requests generalizing k l' with
  | nil => exact .nil k
  | cons q rest ih =>
    rw [answers]
    cases q with
    | next =>
      obtain ⟨hanswer, hstands⟩ := h.next hl
      rw [ask, hanswer]
      exact .next (ih hstands)
    | peek =>
      rw [ask]
      cases hresult : l.result k with
      | ok t =>
        obtain ⟨hanswer, hstands⟩ := h.peek_of_token hl hresult
        rw [hanswer, ← hresult]
        exact .peekToken hresult (ih hstands)
      | error e =>
        obtain ⟨hanswer, hstands⟩ := h.peek_of_fault hl hresult
        rw [hanswer, ← hresult]
        exact .peekFault hresult (ih hstands)

theorem follows_answers (hl : l.ahead = none) (requests : List Request) :
    Follows l.result 0 requests (l.answers requests) :=
  StandsAt.bare.follows hl requests

/-! ## The end of the text -/

/-- What a lexer has behind it and what is left in front of it are the whole text, also after a
fault. -/
theorem pos_add_length_advance (l : Lexer) :
    l.advance.2.pos + l.advance.2.rest.length = l.pos + l.rest.length := by
  have hblanks := congrArg List.length
    (List.takeWhile_append_dropWhile (p := Text.isBlank) (l := l.rest))
  have hscan := congrArg List.length (Scan.taken_append_rest_scan
    (l.pos + (l.rest.takeWhile Text.isBlank).length) (l.rest.dropWhile Text.isBlank))
  rw [List.length_append] at hblanks hscan
  simp only [advance]
  omega

theorem rest_advance_of_endOfText {pos : Nat} (h : l.advance.1 = .ok ⟨.endOfText, pos⟩) :
    l.advance.2.rest = [] := by
  have hblank := List.dropWhile_eq_nil_iff.mpr (advance_eq_endOfText_iff.mp h).1
  simp [advance, hblank, scan]

/-- A lexer with nothing left finds the end again and again. -/
theorem result_of_rest_eq_nil (hl : l.ahead = none) (hrest : l.rest = []) (k : Nat) :
    l.result k = .ok ⟨.endOfText, l.pos⟩ := by
  have hend : l.advance.1 = .ok ⟨.endOfText, l.pos⟩ :=
    advance_eq_endOfText_iff.mpr (by simp [hrest])
  induction k generalizing l with
  | zero => rw [result, behind, next_of_ahead_eq_none hl, hend]
  | succ k ih =>
    have hnil := rest_advance_of_endOfText hend
    have hpos : l.advance.2.pos = l.pos := by
      simpa [hnil, hrest] using pos_add_length_advance l
    rw [result_succ, next_of_ahead_eq_none hl]
    have hrepeat := ih (l := l.advance.2) rfl hnil (advance_eq_endOfText_iff.mpr (by simp [hnil]))
    rwa [hpos] at hrepeat

/-- The results come to the end of the text, which stands behind its last character, and stay there.
Each result before takes a character at least. -/
theorem exists_end (hl : l.ahead = none) :
    ∃ n ≤ l.rest.length, (∀ k < n, ∀ pos, l.result k ≠ .ok ⟨.endOfText, pos⟩) ∧
      ∀ k, n ≤ k → l.result k = .ok ⟨.endOfText, l.pos + l.rest.length⟩ := by
  induction hlength : l.rest.length using Nat.strong_induction_on generalizing l with
  | _ length ih =>
    subst hlength
    have hnext := next_of_ahead_eq_none hl
    have hwhole := pos_add_length_advance l
    have hzero : l.result 0 = l.advance.1 := congrArg Prod.fst hnext
    by_cases hend : ∃ pos, l.advance.1 = .ok ⟨.endOfText, pos⟩
    · obtain ⟨pos, hend⟩ := hend
      have hnil := rest_advance_of_endOfText hend
      obtain ⟨-, rfl⟩ := advance_eq_endOfText_iff.mp hend
      refine ⟨0, Nat.zero_le _, nofun, fun k _ => ?_⟩
      cases k with
      | zero => rw [hzero, hend]
      | succ k =>
        rw [result_succ, hnext, result_of_rest_eq_nil rfl hnil k, ← hwhole, hnil]
        rfl
    · have hlt := l.length_rest_advance_lt (fun pos h => hend ⟨pos, h⟩)
      obtain ⟨n, hn, hbefore, hfrom⟩ := ih _ hlt (l := l.advance.2) rfl rfl
      refine ⟨n + 1, by omega, fun k hk pos => ?_, fun k hk => ?_⟩
      · cases k with
        | zero => exact fun h => hend ⟨pos, hzero.symm.trans h⟩
        | succ k =>
          rw [result_succ, hnext]
          exact hbefore k (by omega) pos
      · obtain ⟨k, rfl⟩ := Nat.exists_eq_add_of_lt (Nat.lt_of_succ_le hk)
        rw [result_succ, hnext, hfrom _ (Nat.le_add_right n k), hwhole]

/-- **Looking ahead does not disturb a lexer.** The results of a text are those of a lexer that is
only asked to take tokens. They come to the end of the text and stay there. Whatever a lexer is
asked for, its answers are read off these results with one index; and behind an answer that is the
end of the text, all are. -/
theorem answers_ofText (cs : List Char) :
    (∃ n ≤ cs.length, (∀ k < n, ∀ pos, (ofText cs).result k ≠ .ok ⟨.endOfText, pos⟩) ∧
      ∀ k, n ≤ k → (ofText cs).result k = .ok ⟨.endOfText, cs.length⟩) ∧
    ∀ requests, Follows (ofText cs).result 0 requests ((ofText cs).answers requests) ∧
      ((ofText cs).answers requests).Pairwise fun a b =>
        ∀ pos, a = .ok ⟨.endOfText, pos⟩ → b = .ok ⟨.endOfText, pos⟩ := by
  obtain ⟨n, hn, hbefore, hfrom⟩ := exists_end (l := ofText cs) rfl
  have hlength : (ofText cs).pos + (ofText cs).rest.length = cs.length := Nat.zero_add _
  rw [hlength] at hfrom
  refine ⟨⟨n, hn, hbefore, hfrom⟩, fun requests => ?_⟩
  have hfollows := follows_answers (l := ofText cs) rfl requests
  refine ⟨hfollows, hfollows.pairwise fun i j hij pos hi => ?_⟩
  have hle : n ≤ i := Nat.le_of_not_lt fun hlt => hbefore i hlt pos hi
  rw [← hi, hfrom i hle, hfrom j (hle.trans hij)]

/-- An ampersand alone is shown as a fault once, the name behind it as often as it is asked for. -/
example : ((ofText ['&', ' ', 'b']).answers [.peek, .peek, .peek, .next, .peek]) =
    [.error (.unknownOperator '&' 0), .ok ⟨.name "b", 2⟩, .ok ⟨.name "b", 2⟩, .ok ⟨.name "b", 2⟩,
      .ok ⟨.endOfText, 3⟩] := by
  decide +kernel

end Lexer

end Dialogue
