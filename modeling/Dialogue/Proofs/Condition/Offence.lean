import Dialogue.Proofs.Condition.Positions
import Dialogue.Proofs.Condition.Reading
import Mathlib.Data.List.DropRight

/-!
# Faults blame the first offending token

If a text is no expression, its fault is that of the first place where it stops being the front of
one (`Expr.offends_of_ofText`). The tokens before the position of the fault are the front of an
expression (`Viable`), and what stands at the position gives the fault (`Offends`): a token that no
expression goes on with, the end of an expression that is not finished, a parenthesis or an
exclamation mark too many, or what the lexer cannot scan. So a fault of the lexer further on never
comes first, and neither does a token that is wrong behind it.

## Structure

* **Places** (`Stage`): what stands around the place behind some tokens, and which tokens can stand
  there. An expression can stand wherever an operand can, if enough parentheses and negations are
  left (`admits_of_derives`), and ends behind an operand (`after_of_derives`). A token that a place
  does not admit is one that no expression goes on with (`not_viable_of_admits`).
* **Readers** (`fails_of_readBinary` and the lemmas beside it): a reader that fails has taken tokens
  that go on towards an expression of its level, and the next one offends. What a reader has read
  before another one fails is an operand by the soundness of reading. The readers call each other,
  so the lemmas do.
* **Positions**: the position of the fault cuts the tokens there, as the positions of a text grow.
-/

namespace Dialogue

/-! ## Places between tokens -/

/-- What can stand around a place. -/
inductive Opener where
  | paren
  | bang
  deriving DecidableEq, Repr

/-- A place between two tokens of an expression: the parentheses and exclamation marks around it,
the innermost first, and whether an operand ends there. -/
structure Stage where
  openers : List Opener
  behindOperand : Bool
  deriving DecidableEq, Repr

namespace Stage

/-- The place in front of an expression. -/
def start : Stage := ⟨[], false⟩

/-- What stands around the place behind an operand: its own negations do not. -/
def endNegations (os : List Opener) : List Opener := os.dropWhile (· == .bang)

/-- The place behind a token. -/
def next (st : Stage) : Token → Stage
  | .literal _ => ⟨endNegations st.openers, true⟩
  | .name _ => ⟨endNegations st.openers, true⟩
  | .operator _ => ⟨st.openers, false⟩
  | .bang => ⟨.bang :: st.openers, false⟩
  | .openParen => ⟨.paren :: st.openers, false⟩
  | .closeParen => ⟨endNegations st.openers.tail, true⟩
  | .endOfText => st

/-- The place behind some tokens. -/
def after (st : Stage) (ts : List Token) : Stage := ts.foldl next st

/-- Whether a token can stand at a place. -/
def admits (st : Stage) : Token → Bool
  | .literal _ => !st.behindOperand
  | .name _ => !st.behindOperand
  | .operator _ => st.behindOperand
  | .bang => !st.behindOperand && st.openers.length < Expr.maxDepth
  | .openParen => !st.behindOperand && st.openers.length < Expr.maxDepth
  | .closeParen => st.behindOperand && st.openers.head? == some .paren
  | .endOfText => false

/-- Whether each of the tokens can stand where it does. -/
def Admits : Stage → List Token → Prop
  | _, [] => True
  | st, t :: ts => st.admits t = true ∧ (st.next t).Admits ts

theorem after_append (st : Stage) (ts us : List Token) :
    st.after (ts ++ us) = (st.after ts).after us :=
  List.foldl_append

theorem admits_append {st : Stage} {ts us : List Token} :
    st.Admits (ts ++ us) ↔ st.Admits ts ∧ (st.after ts).Admits us := by
  induction ts generalizing st with
  | nil => simp [Admits, after]
  | cons t ts ih => simp [Admits, after, ih, and_assoc]

theorem length_endNegations_le (os : List Opener) : (endNegations os).length ≤ os.length :=
  (List.dropWhile_suffix _).length_le

@[simp] theorem endNegations_endNegations (os : List Opener) :
    endNegations (endNegations os) = endNegations os :=
  List.dropWhile_idempotent _ _

/-- Behind an expression stands what stands in front of it, without the negations of its operand. -/
theorem after_of_derives {n : Nat} {level : Level} {ts : List Token} {e : Expr}
    (h : Derives n level ts e) (os : List Opener) :
    after ⟨os, false⟩ ts = ⟨endNegations os, true⟩ := by
  induction h generalizing os with
  | @binary n op l r a b _ _ ihl ihr =>
    rw [after_append, ihl]
    exact (ihr _).trans (by rw [endNegations_endNegations])
  | tighter _ ih => exact ih os
  | not _ ih => exact ih (.bang :: os)
  | literal v => rfl
  | name x => rfl
  | @paren n ts e _ ih =>
    show after ⟨.paren :: os, false⟩ (ts ++ [.closeParen]) = _
    rw [after_append, ih]
    rfl

/-- An expression can stand where enough parentheses and negations are left. -/
theorem admits_of_derives {n : Nat} {level : Level} {ts : List Token} {e : Expr}
    (h : Derives n level ts e) {os : List Opener} (hroom : os.length + n ≤ Expr.maxDepth) :
    Admits ⟨os, false⟩ ts := by
  induction h generalizing os with
  | @binary n op l r a b hl _ ihl ihr =>
    rw [admits_append, after_of_derives hl]
    have hle : (endNegations os).length + n ≤ Expr.maxDepth :=
      (Nat.add_le_add_right (length_endNegations_le os) n).trans hroom
    exact ⟨ihl hroom, rfl, ihr hle⟩
  | tighter _ ih => exact ih hroom
  | @not n ts e _ ih =>
    have hlt : os.length < Expr.maxDepth := by omega
    have hinner : (Opener.bang :: os).length + n ≤ Expr.maxDepth := by rw [List.length_cons]; omega
    exact ⟨by simp [admits, hlt], ih hinner⟩
  | literal v => exact ⟨rfl, trivial⟩
  | name x => exact ⟨rfl, trivial⟩
  | @paren n ts e hinner ih =>
    have hlt : os.length < Expr.maxDepth := by omega
    refine ⟨by simp [admits, hlt], ?_⟩
    show Admits ⟨.paren :: os, false⟩ (ts ++ [.closeParen])
    rw [admits_append, after_of_derives hinner]
    exact ⟨ih (by rw [List.length_cons]; omega), rfl, trivial⟩

end Stage

/-! ## Prefixes of expressions -/

/-- The tokens are the front of an expression, of which no place is inside more parentheses and
negations than the reader allows. -/
def Viable (ts : List Token) : Prop := ∃ us e, Derives Expr.maxDepth .or (ts ++ us) e

/-- How many parentheses and negations stand around the place behind the tokens. -/
def enclosing (ts : List Token) : Nat := (Stage.start.after ts).openers.length

/-- What goes on behind the tokens `ts` gives the fault. -/
inductive Offends (ts : List Token) : TokenStream → ConditionFault → Prop
  | unexpected {token : Token} {pos : Nat} {rest : TokenStream} : ¬ Viable (ts ++ [token]) →
      Offends ts (.cons token pos rest) (.unexpectedToken token pos)
  | trailing {token : Token} {pos : Nat} {rest : TokenStream} : ¬ Viable (ts ++ [token]) →
      Offends ts (.cons token pos rest) (.trailingToken token pos)
  | ended {pos : Nat} : (∀ e, ¬ Derives Expr.maxDepth .or ts e) →
      Offends ts (.endOfText pos) (.unexpectedToken .endOfText pos)
  | tooDeep {token : Token} {pos : Nat} {rest : TokenStream} : token = .openParen ∨ token = .bang →
      enclosing ts = Expr.maxDepth →
      Offends ts (.cons token pos rest) (.tooDeep Expr.maxDepth pos)
  | lexical {f : ConditionFault} : Offends ts (.fault f) f

theorem enclosing_of_after {ts : List Token} {os : List Opener} {b : Bool}
    (h : Stage.start.after ts = ⟨os, b⟩) : enclosing ts = os.length := by
  rw [enclosing, h]

theorem not_viable_of_admits {ts : List Token} {token : Token}
    (h : (Stage.start.after ts).admits token = false) : ¬ Viable (ts ++ [token]) := by
  rintro ⟨us, e, hder⟩
  have hall : Stage.start.Admits (ts ++ [token] ++ us) :=
    Stage.admits_of_derives hder (Nat.zero_add _).le
  rw [List.append_assoc, Stage.admits_append] at hall
  have htoken : (Stage.start.after ts).admits token = true := hall.2.1
  rw [h] at htoken
  cases htoken

theorem not_derives_of_after {ts : List Token} (h : Stage.start.after ts ≠ ⟨[], true⟩) (e : Expr) :
    ¬ Derives Expr.maxDepth .or ts e :=
  fun hder => h (Stage.after_of_derives hder [])

/-- Behind an operand that no operator follows, only a parenthesis can be closed. -/
theorem Stage.admits_behind_operand {os : List Opener} {token : Token} {pos : Nat}
    {rest : TokenStream} (h : (TokenStream.cons token pos rest).Stops 1)
    (hclose : token = .closeParen → os.head? ≠ some .paren) :
    (⟨os, true⟩ : Stage).admits token = false := by
  cases token with
  | operator op =>
    have hweak : op.strength < 1 := h
    cases op <;> exact absurd hweak (by decide)
  | closeParen => simpa [admits] using hclose rfl
  | literal _ | name _ | bang | openParen | endOfText => rfl

/-- Where neither the next token nor the end fits, it offends. -/
theorem Offends.of_unexpected {ts : List Token} {s : TokenStream}
    (htoken : ∀ token pos rest, s = .cons token pos rest →
      (Stage.start.after ts).admits token = false)
    (hend : Stage.start.after ts ≠ ⟨[], true⟩) : Offends ts s (Expr.unexpected s) := by
  cases s with
  | endOfText pos => exact .ended (not_derives_of_after hend)
  | fault f => exact .lexical
  | cons token pos rest => exact .unexpected (not_viable_of_admits (htoken token pos rest rfl))

namespace Expr

/-! ## When a reader fails -/

variable {depth strength : Nat} {s : TokenStream} {f : ConditionFault} {left : Expr}

/-- Whether a token stands at the front of a primary expression. -/
def startsPrimary : Token → Bool
  | .literal _ => true
  | .name _ => true
  | .openParen => true
  | _ => false

theorem readPrimary_eq_error (h : readPrimary depth s = .error f) :
    (∃ pos rest, s = .cons .openParen pos rest ∧ maxDepth ≤ depth ∧ f = .tooDeep maxDepth pos) ∨
    (∃ pos rest, s = .cons .openParen pos rest ∧ depth < maxDepth ∧
      (readBinary (depth + 1) 1 rest = .error f ∨
        ∃ e inside, Reads (readBinary (depth + 1) 1 rest) e inside ∧
          (∀ pos' after, inside ≠ .cons .closeParen pos' after) ∧ f = unexpected inside)) ∨
    ((∀ token pos rest, s = .cons token pos rest → startsPrimary token = false) ∧
      f = unexpected s) := by
  rw [readPrimary.eq_def] at h
  split at h
  · cases h
  · cases h
  · next pos rest =>
    split at h
    · next hdepth =>
      refine .inr (.inl ⟨pos, rest, rfl, hdepth, ?_⟩)
      split at h
      · next hinner =>
        cases h
        exact .inl hinner
      · next e inside hlt hinner =>
        refine .inr ⟨e, inside, ⟨hlt, hinner⟩, ?_⟩
        unfold readClose at h
        split at h
        · next hclose =>
          split at hclose <;> cases hclose
          next hne =>
          cases h
          exact ⟨hne, rfl⟩
        · cases h
    · next hdepth =>
      cases h
      exact .inl ⟨pos, rest, rfl, not_lt.mp hdepth, rfl⟩
  · next hliteral hname hparen =>
    cases h
    refine .inr (.inr ⟨?_, rfl⟩)
    rintro token pos rest rfl
    cases token with
    | literal v => exact absurd rfl (hliteral v pos rest)
    | name x => exact absurd rfl (hname x pos rest)
    | openParen => exact absurd rfl (hparen pos rest)
    | operator _ | bang | closeParen | endOfText => rfl

theorem readUnary_eq_error (h : readUnary depth s = .error f) :
    (∃ pos rest, s = .cons .bang pos rest ∧ maxDepth ≤ depth ∧ f = .tooDeep maxDepth pos) ∨
    (∃ pos rest, s = .cons .bang pos rest ∧ depth < maxDepth ∧
      readUnary (depth + 1) rest = .error f) ∨
    ((∀ pos rest, s ≠ .cons .bang pos rest) ∧ readPrimary depth s = .error f) := by
  rw [readUnary.eq_def] at h
  split at h
  · next pos rest =>
    split at h
    · next hdepth =>
      split at h
      · next hinner =>
        cases h
        exact .inr (.inl ⟨pos, rest, rfl, hdepth, hinner⟩)
      · cases h
    · next hdepth =>
      cases h
      exact .inl ⟨pos, rest, rfl, not_lt.mp hdepth, rfl⟩
  · next hbang => exact .inr (.inr ⟨hbang, h⟩)

theorem readBinary_eq_error (h : readBinary depth strength s = .error f) :
    readUnary depth s = .error f ∨
    ∃ left mid, Reads (readUnary depth s) left mid ∧
      readOperators depth strength left mid = .error f := by
  rw [readBinary] at h
  split at h
  · next hunary =>
    cases h
    exact .inl hunary
  · next left mid hlt hunary =>
    split at h
    · next hoperators =>
      cases h
      exact .inr ⟨left, mid, ⟨hlt, hunary⟩, hoperators⟩
    · cases h

theorem readOperators_eq_error (h : readOperators depth strength left s = .error f) :
    s = .fault f ∨
    ∃ op pos rest, s = .cons (.operator op) pos rest ∧ strength ≤ op.strength ∧
      (readBinary depth (op.strength + 1) rest = .error f ∨
        ∃ right mid, Reads (readBinary depth (op.strength + 1) rest) right mid ∧
          readOperators depth strength (.binary op left right) mid = .error f) := by
  rw [readOperators.eq_def] at h
  split at h
  · cases h
    exact .inl rfl
  · next op pos rest =>
    split at h
    · cases h
    · next hop =>
      split at h
      · next hright =>
        cases h
        exact .inr ⟨op, pos, rest, rfl, not_lt.mp hop, .inl hright⟩
      · next right mid hlt hright =>
        split at h
        · next hoperators =>
          cases h
          refine .inr ⟨op, pos, rest, rfl, not_lt.mp hop, .inr ?_⟩
          exact ⟨right, mid, ⟨hlt, hright⟩, hoperators⟩
        · cases h
  · cases h

/-! ## What a failing reader has taken -/

open TokenStream

/-- Behind the tokens `ps` and then `ls`, a reader for `level` has failed on the stream `s`. The
tokens that it has taken go on, from `ls`, towards an expression of the level, and what comes next
offends. -/
def Fails (n : Nat) (level : Level) (ps ls : List Token) (s : TokenStream)
    (f : ConditionFault) : Prop :=
  ∃ ts rest us e, Leads s ts rest ∧ Derives n level (ls ++ ts ++ us) e ∧
    Offends (ps ++ ls ++ ts) rest f

variable {n : Nat} {level low : Level} {ps ls : List Token} {os : List Opener}

theorem Fails.of_strength_le (h : Fails n level ps ls s f) (hle : low.strength ≤ level.strength) :
    Fails n low ps ls s f := by
  obtain ⟨ts, rest, us, e, hts, hder, hoff⟩ := h
  exact ⟨ts, rest, us, e, hts, hder.of_strength_le low hle, hoff⟩

/-- A reader that fails at once offends where it stands, if an expression can stand there. -/
theorem Fails.of_offends (hoff : Offends ps s f) : Fails n level ps [] s f := by
  refine ⟨[], s, [.literal .null], .literal .null, .nil s, ?_, by simpa using hoff⟩
  exact (Derives.literal _).of_strength_le level level.strength_le_six

/-- A token in front of a reader that fails, with which what the reader goes on towards makes up an
expression. -/
theorem Fails.cons {token : Token} {pos : Nat} {n' : Nat} {level' : Level}
    (h : Fails n level (ps ++ ls ++ [token]) [] s f)
    (hder : ∀ ts e, Derives n level ts e →
      ∃ us e', Derives n' level' (ls ++ token :: ts ++ us) e') :
    Fails n' level' ps ls (.cons token pos s) f := by
  obtain ⟨ts, rest, us, e, hts, hder', hoff⟩ := h
  obtain ⟨vs, e', hder''⟩ := hder _ _ hder'
  refine ⟨token :: ts, rest, us ++ vs, e', .cons token pos hts, ?_, by simpa using hoff⟩
  simpa using hder''

/-- Tokens that a reader has taken before it failed. -/
theorem Fails.behind {ts : List Token} {mid : TokenStream} (h : Fails n level ps (ls ++ ts) mid f)
    (hts : Leads s ts mid) : Fails n level ps ls s f := by
  obtain ⟨us, rest, vs, e, hus, hder, hoff⟩ := h
  exact ⟨ts ++ us, rest, vs, e, hts.append hus, by simpa using hder, by simpa using hoff⟩

mutual
/-- A reader of primary expressions fails at a token that offends. -/
theorem fails_of_readPrimary {n : Nat} {ps : List Token} {os : List Opener} {s : TokenStream}
    {f : ConditionFault} (hn : os.length + n = maxDepth) (hps : Stage.start.after ps = ⟨os, false⟩)
    (hbang : ∀ pos rest, s ≠ .cons .bang pos rest) (h : readPrimary os.length s = .error f) :
    Fails n .primary ps [] s f := by
  rcases readPrimary_eq_error h with ⟨pos, rest, rfl, hdepth, rfl⟩ |
    ⟨pos, rest, hs, hdepth, hinner⟩ | ⟨hstart, rfl⟩
  · exact .of_offends (.tooDeep (.inl rfl) ((enclosing_of_after hps).trans (by omega)))
  · -- The parenthesis takes one of the levels that are left.
    obtain ⟨n, rfl⟩ : ∃ m, n = m + 1 := ⟨n - 1, by omega⟩
    have hlen : s.length = rest.length + 1 := by rw [hs]; rfl
    have hroom : (Opener.paren :: os).length + n = maxDepth := by rw [List.length_cons]; omega
    rw [hs]
    rcases hinner with hinner | ⟨e, inside, hinner, hclose, rfl⟩
    · have hplace : Stage.start.after (ps ++ [] ++ [.openParen]) = ⟨.paren :: os, false⟩ := by
        rw [List.append_nil, Stage.after_append, hps]
        rfl
      have hfails := fails_of_readBinary .or hroom hplace rfl (by decide) (by decide) hinner
      exact hfails.cons fun ts e hder => ⟨[.closeParen], e, .paren hder⟩
    · obtain ⟨ts, hts, hder, hstops⟩ :=
        derives_of_readsBinary .or hroom (by decide) (by decide) hinner
      have hplace : Stage.start.after (ps ++ [] ++ .openParen :: ts) = ⟨.paren :: os, true⟩ := by
        rw [List.append_nil, Stage.after_append, hps]
        exact Stage.after_of_derives hder (.paren :: os)
      refine ⟨.openParen :: ts, inside, [.closeParen], e, .cons _ pos hts, .paren hder, ?_⟩
      refine .of_unexpected ?_ (by rw [hplace]; simp)
      rintro token pos' after rfl
      rw [hplace]
      exact Stage.admits_behind_operand hstops fun hparen =>
        absurd (hparen ▸ rfl) (hclose pos' after)
  · refine .of_offends (.of_unexpected ?_ (by rw [hps]; simp))
    rintro token pos rest rfl
    rw [hps]
    cases token with
    | bang => exact absurd rfl (hbang pos rest)
    | literal _ | name _ | openParen => cases hstart _ pos rest rfl
    | operator _ | closeParen | endOfText => rfl
termination_by (s.length, 0)

/-- A reader of unary expressions fails at a token that offends. -/
theorem fails_of_readUnary {n : Nat} {ps : List Token} {os : List Opener} {s : TokenStream}
    {f : ConditionFault} (hn : os.length + n = maxDepth) (hps : Stage.start.after ps = ⟨os, false⟩)
    (h : readUnary os.length s = .error f) : Fails n .unary ps [] s f := by
  rcases readUnary_eq_error h with ⟨pos, rest, rfl, hdepth, rfl⟩ | ⟨pos, rest, hs, hdepth, hinner⟩ |
    ⟨hbang, hprimary⟩
  · exact .of_offends (.tooDeep (.inr rfl) ((enclosing_of_after hps).trans (by omega)))
  · obtain ⟨n, rfl⟩ : ∃ m, n = m + 1 := ⟨n - 1, by omega⟩
    have hlen : s.length = rest.length + 1 := by rw [hs]; rfl
    have hroom : (Opener.bang :: os).length + n = maxDepth := by rw [List.length_cons]; omega
    have hplace : Stage.start.after (ps ++ [] ++ [.bang]) = ⟨.bang :: os, false⟩ := by
      rw [List.append_nil, Stage.after_append, hps]
      rfl
    have hfails := fails_of_readUnary hroom hplace hinner
    rw [hs]
    refine hfails.cons fun ts e hder => ⟨[], .not e, ?_⟩
    rw [List.append_nil]
    exact .not hder
  · exact (fails_of_readPrimary hn hps hbang hprimary).of_strength_le (by decide)
termination_by (s.length, 1)

/-- A reader of binary expressions fails at a token that offends. It starts behind no negation, so
its operands leave the place as it is. -/
theorem fails_of_readBinary (low : Level) {n strength : Nat} {ps : List Token} {os : List Opener}
    {s : TokenStream} {f : ConditionFault} (hn : os.length + n = maxDepth)
    (hps : Stage.start.after ps = ⟨os, false⟩) (hos : Stage.endNegations os = os)
    (hlow : low.strength ≤ strength) (hunary : low.strength ≤ Level.unary.strength)
    (h : readBinary os.length strength s = .error f) : Fails n low ps [] s f := by
  rcases readBinary_eq_error h with hu | ⟨left, mid, hu, ho⟩
  · exact (fails_of_readUnary hn hps hu).of_strength_le hunary
  · have hlt := length_lt_of_readsUnary hu
    obtain ⟨ts, hts, hleft⟩ := derives_of_readsUnary hn hu
    have hfails := fails_of_readOperators low hn hps hos hlow hunary hleft
      (fun op _ _ _ => op.strength_le_four.trans (by decide)) ho
    exact hfails.behind hts
termination_by (s.length, 3)

/-- A reader of operators fails at a token that offends, from a left operand that the tokens `ls`
derive where no operator that binds more strongly comes next. -/
theorem fails_of_readOperators (low : Level) {n strength : Nat} {level : Level} {ps ls : List Token}
    {os : List Opener} {s : TokenStream} {f : ConditionFault} {left : Expr}
    (hn : os.length + n = maxDepth) (hps : Stage.start.after ps = ⟨os, false⟩)
    (hos : Stage.endNegations os = os) (hlow : low.strength ≤ strength)
    (hle : low.strength ≤ level.strength) (hleft : Derives n level ls left)
    (hnext : ∀ op pos rest, s = .cons (.operator op) pos rest → op.strength ≤ level.strength)
    (h : readOperators os.length strength left s = .error f) : Fails n low ps ls s f := by
  rcases readOperators_eq_error h with rfl | ⟨op, pos, rest, hs, hop, hright⟩
  · exact ⟨[], _, [], left, .nil _, by simpa using hleft.of_strength_le low hle, .lexical⟩
  have hlen : s.length = rest.length + 1 := by rw [hs]; rfl
  have hlowOp : low.strength ≤ op.level.strength := by
    rw [BinaryOp.strength_level]
    exact hlow.trans hop
  have htighter : op.level.tighter.strength ≤ Level.unary.strength := by
    rw [BinaryOp.strength_tighter_level]
    exact Nat.succ_le_succ op.strength_le_four
  -- The left operand falls to the level of the operator, as it would if the reading went well.
  have hoperand : Derives n op.level ls left :=
    hleft.of_strength_le op.level (by rw [BinaryOp.strength_level]; exact hnext op pos rest hs)
  rcases hright with hright | ⟨right, mid, hright, ho⟩
  · have hplace : Stage.start.after (ps ++ ls ++ [.operator op]) = ⟨os, false⟩ := by
      rw [Stage.after_append, Stage.after_append, hps, Stage.after_of_derives hleft, hos]
      rfl
    have hfails := fails_of_readBinary op.level.tighter hn hplace hos
      (BinaryOp.strength_tighter_level op).le htighter hright
    rw [hs]
    refine hfails.cons fun ts e hder => ⟨[], .binary op left e, ?_⟩
    rw [List.append_nil]
    exact (Derives.binary hoperand hder).of_strength_le low hlowOp
  · have hlt := length_lt_of_readsBinary hright
    obtain ⟨ts, hts, hder, hstops⟩ := derives_of_readsBinary op.level.tighter hn
      (BinaryOp.strength_tighter_level op).le htighter hright
    have hnext' : ∀ op' pos' rest', mid = .cons (.operator op') pos' rest' →
        op'.strength ≤ op.level.strength := by
      rintro op' pos' rest' rfl
      rw [BinaryOp.strength_level]
      exact Nat.le_of_lt_succ hstops
    have hfails :=
      fails_of_readOperators low hn hps hos hlow hlowOp (.binary hoperand hder) hnext' ho
    rw [hs]
    exact hfails.behind (.cons _ pos hts)
termination_by (s.length, 2)
end

theorem fails_of_ofTokens (h : ofTokens s = .error f) : Fails maxDepth .or [] [] s f := by
  cases s with
  | endOfText pos => cases h
  | fault e =>
    cases h
    exact .of_offends .lexical
  | cons token pos rest =>
    rw [ofTokens] at h
    split at h
    · next hread =>
      cases h
      exact fails_of_readBinary .or (Nat.zero_add _) rfl rfl (by decide) (by decide) hread
    · next e after hlt hread =>
      obtain ⟨ts, hts, hder, hstops⟩ := derives_of_readsBinary .or (Nat.zero_add _) (by decide)
        (by decide) ⟨hlt, hread⟩
      refine ⟨ts, after, [], e, hts, by simpa using hder, ?_⟩
      cases after with
      | endOfText _ => cases h
      | fault _ => cases hstops
      | cons found pos' after =>
        cases h
        refine .trailing (not_viable_of_admits ?_)
        have hplace : Stage.start.after ts = ⟨[], true⟩ := Stage.after_of_derives hder []
        simpa [hplace] using Stage.admits_behind_operand hstops (fun _ => by simp)

end Expr

/-- **A fault blames the first token that cannot stand where it does.** The tokens before its
position are the front of an expression, and with what stands there they are not. -/
theorem Expr.offends_of_ofText {cs : List Char} {f : ConditionFault} (h : ofText cs = .error f) :
    ∃ pos, f.pos? = some pos ∧ Viable ((TokenStream.ofText cs).before pos) ∧
      Offends ((TokenStream.ofText cs).before pos) ((TokenStream.ofText cs).behind pos) f := by
  obtain ⟨ts, rest, us, e, hts, hder, hoff⟩ := fails_of_ofTokens h
  obtain ⟨pos, hpos, -, hbefore, hbehind⟩ :=
    TokenStream.before_and_behind_of_leads hts (TokenStream.ordered_ofText cs)
  rw [List.nil_append] at hder hoff
  refine ⟨pos, ?_, ?_, ?_⟩
  · cases hoff with
    | lexical => exact hpos
    | unexpected _ | trailing _ | ended _ | tooDeep _ _ => exact hpos
  · rw [hbefore]
    exact ⟨us, e, hder⟩
  · rw [hbefore, hbehind]
    exact hoff

/-- A name behind an operand, where only an operator or the parenthesis can come. -/
theorem Expr.offends_of_ofText_name_behind_operand :
    let s := TokenStream.ofText "(gold && met Ann".toList
    let f := ConditionFault.unexpectedToken (.name "Ann") 13
    ofText "(gold && met Ann".toList = .error f ∧
      s.before 13 = [.openParen, .name "gold", .operator .and, .name "met"] ∧
      ∃ pos, f.pos? = some pos ∧ Viable (s.before pos) ∧
        Offends (s.before pos) (s.behind pos) f := by
  have hfault : ofText "(gold && met Ann".toList = .error (.unexpectedToken (.name "Ann") 13) := by
    decide +kernel
  have hbefore : (TokenStream.ofText "(gold && met Ann".toList).before 13 =
      [.openParen, .name "gold", .operator .and, .name "met"] := by decide +kernel
  exact ⟨hfault, hbefore, offends_of_ofText hfault⟩

end Dialogue
