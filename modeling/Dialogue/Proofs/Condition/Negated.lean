import Dialogue.Condition.Eval
import Dialogue.Proofs.Condition.Reading

/-!
# Conditions behind an exclamation mark

An entry takes an exclamation mark at the front of its condition off and turns the outcome of the
rest round. The rest of a condition that can be read can be read as well, as the same tree with one
negation less at its left end (`Expr.ofText_of_bang`).

`Lexes cs ts` says that the text `cs` consists of the tokens `ts`. It knows of no positions, so the
tokens of a text do not depend on what stands in front of it.

An expression without comparisons of order has a value over every store
(`Expr.exists_eval_of_isOrderFree`).
-/

namespace Dialogue

/-! ## Texts and their tokens -/

/-- The text consists of the tokens, with blanks between them. -/
inductive Lexes : List Char → List Token → Prop
  | blank {cs : List Char} : cs.dropWhile Text.isBlank = [] → Lexes cs []
  | cons {cs : List Char} {token : Token} {ts : List Token} :
      (scan 0 (cs.dropWhile Text.isBlank)).found = .ok token → token ≠ .endOfText →
      Lexes (scan 0 (cs.dropWhile Text.isBlank)).rest ts → Lexes cs (token :: ts)

namespace Scan

/-- The scans leave the same and find the same token, if any; their faults may differ. -/
structure Alike (s s' : Scan) : Prop where
  rest : s'.rest = s.rest
  found : ∀ token, s'.found = .ok token ↔ s.found = .ok token

theorem Alike.refl (s : Scan) : s.Alike s := ⟨rfl, fun _ => Iff.rfl⟩

theorem alike_of_error {e e' : ConditionFault} (taken taken' rest : List Char) :
    Alike ⟨.error e, taken, rest⟩ ⟨.error e', taken', rest⟩ :=
  ⟨rfl, fun token => by simp⟩

theorem doubled_alike (pos pos' : Nat) (op : BinaryOp) (c : Char) (cs : List Char) :
    (doubled pos op c cs).Alike (doubled pos' op c cs) := by
  cases cs with
  | nil => exact alike_of_error ..
  | cons d cs =>
    rw [doubled, doubled]
    split
    · exact .refl _
    · exact alike_of_error ..

theorem string_alike (pos pos' : Nat) (cs : List Char) :
    (string pos cs).Alike (string pos' cs) := by
  rw [string, string]
  split
  · exact .refl _
  · exact alike_of_error ..

theorem number_alike (pos pos' : Nat) (cs : List Char) :
    (number pos cs).Alike (number pos' cs) := by
  simp only [number]
  split
  · exact alike_of_error ..
  · split
    · exact alike_of_error ..
    · split
      · exact alike_of_error ..
      · split
        · exact .refl _
        · exact alike_of_error ..

/-- What a scan finds and leaves does not depend on where the text stands. -/
theorem scan_alike (pos pos' : Nat) (cs : List Char) : (scan pos cs).Alike (scan pos' cs) := by
  unfold scan
  split
  · exact .refl _
  · exact .refl _
  · exact .refl _
  · exact doubled_alike ..
  · exact doubled_alike ..
  · exact doubled_alike ..
  · exact .refl _
  · exact .refl _
  · exact .refl _
  · exact string_alike ..
  · split
    · exact number_alike ..
    · split
      · exact .refl _
      · exact alike_of_error ..

end Scan

namespace TokenStream

theorem tokens_ofLexer_eq_nil_iff {l : Lexer} :
    (ofLexer l).tokens = .ok [] ↔ l.rest.dropWhile Text.isBlank = [] := by
  have hnil : (ofLexer l).tokens = .ok [] ↔ ∃ pos, ofLexer l = .endOfText pos := by
    rw [tokens_eq_ok_iff]
    constructor
    · rintro ⟨pos, hleads⟩
      generalize ofLexer l = s at hleads ⊢
      cases hleads
      exact ⟨pos, rfl⟩
    · rintro ⟨pos, hs⟩
      exact ⟨pos, hs ▸ .nil _⟩
  rw [hnil, ofLexer_eq_endOfText_iff]
  simp only [Lexer.advance, Outcome.map_eq_ok_iff]
  cases l.rest.dropWhile Text.isBlank with
  | nil => simp [scan]
  | cons c cs =>
    constructor
    · rintro ⟨pos, token, hfound, htoken⟩
      cases htoken
      exact absurd hfound (found_scan_ne_endOfText _ c cs)
    · intro h
      cases h

theorem tokens_ofLexer_eq_cons_iff {l : Lexer} {token : Token} {ts : List Token} :
    (ofLexer l).tokens = .ok (token :: ts) ↔
      (scan 0 (l.rest.dropWhile Text.isBlank)).found = .ok token ∧ token ≠ .endOfText ∧
        (ofLexer l.advance.2).tokens = .ok ts := by
  have hadvance : l.advance.1.map PlacedToken.token =
      (scan (l.pos + (l.rest.takeWhile Text.isBlank).length)
        (l.rest.dropWhile Text.isBlank)).found := by
    rw [Lexer.advance]
    dsimp only
    cases (scan _ (l.rest.dropWhile Text.isBlank)).found <;> rfl
  rw [(Scan.scan_alike (l.pos + (l.rest.takeWhile Text.isBlank).length) 0 _).found, ← hadvance,
    ofLexer]
  split
  · next e l' h =>
    rw [h]
    simp [tokens, toList]
  · next t l' h =>
    rw [h]
    by_cases hend : t.token = .endOfText
    · rw [dif_pos hend]
      constructor
      · intro h
        cases h
      · rintro ⟨htoken, hne, -⟩
        cases htoken
        exact absurd hend hne
    · rw [dif_neg hend, tokens_cons, Outcome.map_eq_ok_iff]
      constructor
      · rintro ⟨us, hus, htokens⟩
        cases htokens
        exact ⟨rfl, hend, hus⟩
      · rintro ⟨htoken, -, hus⟩
        cases htoken
        exact ⟨ts, hus, rfl⟩

/-- The tokens of a lexer are those that the text ahead of it consists of. -/
theorem tokens_ofLexer_eq_ok_iff {l : Lexer} {ts : List Token} :
    (ofLexer l).tokens = .ok ts ↔ Lexes l.rest ts := by
  induction ts generalizing l with
  | nil =>
    rw [tokens_ofLexer_eq_nil_iff]
    constructor
    · exact .blank
    · rintro ⟨h⟩
      exact h
  | cons token ts ih =>
    have hrest : l.advance.2.rest = (scan 0 (l.rest.dropWhile Text.isBlank)).rest :=
      (Scan.scan_alike ..).rest
    rw [tokens_ofLexer_eq_cons_iff, ih, hrest]
    constructor
    · rintro ⟨hfound, hend, h⟩
      exact .cons hfound hend h
    · rintro (_ | ⟨hfound, hend, h⟩)
      exact ⟨hfound, hend, h⟩

theorem tokens_ofText_eq_ok_iff {cs : List Char} {ts : List Token} :
    (ofText cs).tokens = .ok ts ↔ Lexes cs ts :=
  tokens_ofLexer_eq_ok_iff

end TokenStream

/-- The tokens of a text depend only on what follows its leading blanks. -/
theorem Lexes.of_dropWhile_eq {cs ds : List Char} {ts : List Token}
    (hdrop : ds.dropWhile Text.isBlank = cs.dropWhile Text.isBlank) (h : Lexes cs ts) :
    Lexes ds ts := by
  cases h with
  | blank hblank => exact .blank (hdrop.trans hblank)
  | cons hfound hend hrest =>
    rw [← hdrop] at hfound hrest
    exact .cons hfound hend hrest

theorem Lexes.eq_nil_of_blank {cs : List Char} {ts : List Token} (h : Lexes cs ts)
    (hblank : cs.all Text.isBlank = true) : ts = [] := by
  rw [List.all_eq_true, ← List.dropWhile_eq_nil_iff] at hblank
  cases h with
  | blank _ => rfl
  | cons hfound hend _ =>
    rw [hblank] at hfound
    cases hfound
    exact absurd rfl hend

/-- An exclamation mark in front of a text is a token of its own, unless it makes one with an equals
sign behind it. -/
theorem Lexes.of_bang {cs : List Char} {ts : List Token} (h : Lexes ('!' :: cs) ts) :
    (∃ us, ts = .operator .notEq :: us) ∨ ∃ us, ts = .bang :: us ∧ Lexes cs us := by
  have hdrop : ('!' :: cs).dropWhile Text.isBlank = '!' :: cs := by
    rw [List.dropWhile_cons, if_neg (by decide)]
  cases h with
  | blank hblank =>
    rw [hdrop] at hblank
    cases hblank
  | cons hfound hend hrest =>
    rw [hdrop] at hfound hrest
    have hscan : scan 0 ('!' :: cs) = Scan.maybeEquals .bang .notEq '!' cs := rfl
    generalize scan 0 ('!' :: cs) = s at hscan hfound hrest
    rw [Scan.maybeEquals.eq_def] at hscan
    split at hscan
    · subst hscan
      cases hfound
      exact .inl ⟨_, rfl⟩
    · subst hscan
      cases hfound
      exact .inr ⟨_, rfl, hrest⟩

/-! ## Derivations behind an exclamation mark -/

namespace Derives

variable {n : Nat} {level : Level} {ts : List Token} {e : Expr}

/-- There may always be more parentheses and negations around. -/
theorem succ (h : Derives n level ts e) : Derives (n + 1) level ts e := by
  induction h with
  | binary _ _ ihl ihr => exact .binary ihl ihr
  | tighter _ ih => exact .tighter ih
  | not _ ih => exact .not ih
  | literal v => exact .literal v
  | name x => exact .name x
  | paren _ ih => exact .paren ih

/-- What derives an expression starts with a token that is no operator. -/
theorem exists_head (h : Derives n level ts e) :
    ∃ token us, ts = token :: us ∧ ∀ op, token ≠ .operator op := by
  induction h with
  | binary _ _ ihl _ =>
    obtain ⟨token, us, rfl, htoken⟩ := ihl
    exact ⟨token, _, rfl, htoken⟩
  | tighter _ ih => exact ih
  | not _ _ => exact ⟨.bang, _, rfl, fun _ => Token.noConfusion⟩
  | literal v => exact ⟨.literal v, _, rfl, fun _ => Token.noConfusion⟩
  | name x => exact ⟨.name x, _, rfl, fun _ => Token.noConfusion⟩
  | paren _ _ => exact ⟨.openParen, _, rfl, fun _ => Token.noConfusion⟩

end Derives

/-- The expression with one negation less at its left end. -/
def Expr.unnegated : Expr → Expr
  | .not e => e
  | .binary op left right => .binary op left.unnegated right
  | .literal v => .literal v
  | .variable name => .variable name

/-- What derives an expression behind an exclamation mark derives the expression with one negation
less at its left end. The mark belongs to the leftmost operand alone. -/
theorem Derives.unnegated {n : Nat} {level : Level} {ts : List Token} {e : Expr}
    (h : Derives n level (.bang :: ts) e) : Derives n level ts e.unnegated := by
  generalize hus : Token.bang :: ts = us at h
  induction h generalizing ts with
  | @binary n op l r a b hl hr ihl ihr =>
    -- The left operand is not empty, so the mark is its first token.
    obtain ⟨token, l', rfl, -⟩ := hl.exists_head
    cases hus
    exact .binary (ihl rfl) hr
  | tighter _ ih => exact .tighter (ih hus)
  | not h _ =>
    cases hus
    exact h.succ
  | literal v => cases hus
  | name x => cases hus
  | paren _ _ => cases hus

/-- A text holds the expression that its tokens derive. -/
theorem Expr.ofText_of_lexes {cs : List Char} {ts : List Token} {e : Expr} (h : Lexes cs ts)
    (hder : Derives maxDepth .or ts e) : ofText cs = .ok e := by
  have hblank : ¬ cs.all Text.isBlank = true := by
    intro hblank
    obtain ⟨token, us, htokens, -⟩ := hder.exists_head
    rw [h.eq_nil_of_blank hblank] at htokens
    cases htokens
  rw [ofText_eq_ok_iff, if_neg hblank]
  exact ⟨ts, TokenStream.tokens_ofText_eq_ok_iff.mpr h, hder⟩

/-- What a text with an exclamation mark at its front holds is derived from the mark and the tokens
of what follows it. -/
theorem Expr.exists_derives_of_bang {cs : List Char} {e : Expr} (h : ofText ('!' :: cs) = .ok e) :
    ∃ ts, Lexes cs ts ∧ Derives maxDepth .or (.bang :: ts) e := by
  rw [ofText_eq_ok_iff, if_neg (by simp [show Text.isBlank '!' = false by decide])] at h
  obtain ⟨ts, hts, hder⟩ := h
  rw [TokenStream.tokens_ofText_eq_ok_iff] at hts
  rcases hts.of_bang with ⟨us, rfl⟩ | ⟨us, rfl, hus⟩
  · -- The mark belongs to an operator, with which no expression starts.
    obtain ⟨token, _, htoken, hop⟩ := hder.exists_head
    cases htoken
    exact absurd rfl (hop .notEq)
  · exact ⟨us, hus, hder⟩

/-- **The rest of a negated condition can be read.** If a text with an exclamation mark at its front
can be read, then so can what follows the mark, as the tree with one negation less at its left
end. -/
theorem Expr.ofText_of_bang {cs : List Char} {e : Expr} (h : ofText ('!' :: cs) = .ok e) :
    ofText cs = .ok e.unnegated := by
  obtain ⟨ts, hts, hder⟩ := exists_derives_of_bang h
  exact ofText_of_lexes hts hder.unnegated

/-! ## Expressions without comparisons of order -/

/-- Whether an operator compares by order. -/
def BinaryOp.isOrder : BinaryOp → Bool
  | .less => true
  | .lessEq => true
  | .greater => true
  | .greaterEq => true
  | _ => false

namespace Expr

/-- Whether no operator of an expression compares by order. -/
def isOrderFree : Expr → Bool
  | .literal _ => true
  | .variable _ => true
  | .not e => e.isOrderFree
  | .binary op left right => !op.isOrder && left.isOrderFree && right.isOrderFree

theorem isOrderFree_unnegated {e : Expr} (h : e.isOrderFree = true) :
    e.unnegated.isOrderFree = true := by
  induction e with
  | literal v => rfl
  | «variable» name => rfl
  | not e _ => exact h
  | binary op left right ihl _ =>
    simp only [isOrderFree, unnegated, Bool.and_eq_true] at h ⊢
    exact ⟨⟨h.1.1, ihl h.1.2⟩, h.2⟩

/-- An expression that compares nothing by order has a value over every store. -/
theorem exists_eval_of_isOrderFree {e : Expr} (h : e.isOrderFree = true) (s : Store) :
    ∃ v, e.eval s = .ok v := by
  induction e with
  | literal v => exact ⟨v, rfl⟩
  | «variable» name => exact ⟨s.read name, rfl⟩
  | not e ih =>
    obtain ⟨v, hv⟩ := ih h
    exact ⟨.bool (!v.isTruthy), by rw [eval, hv]; rfl⟩
  | binary op left right ihl ihr =>
    simp only [isOrderFree, Bool.and_eq_true] at h
    obtain ⟨a, ha⟩ := ihl h.1.2
    obtain ⟨b, hb⟩ := ihr h.2
    cases op with
    | or => cases hand : a.isTruthy <;> simp [eval, ha, hb, hand]
    | and => cases hand : a.isTruthy <;> simp [eval, ha, hb, hand]
    | eq => simp [eval, ha, hb, combine]
    | notEq => simp [eval, ha, hb, combine]
    | less => cases h.1.1
    | lessEq => cases h.1.1
    | greater => cases h.1.1
    | greaterEq => cases h.1.1

end Expr

end Dialogue
