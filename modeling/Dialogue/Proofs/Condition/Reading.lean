import Dialogue.Condition.Parser
import Dialogue.Proofs.Condition.Grammar
import Dialogue.Proofs.Condition.Stream

/-!
# Reading is deriving

`Expr.ofText` accepts exactly the texts whose tokens the grammar derives, and gives the tree of the
derivation.

## Structure

* **What a reader reads.** A reader returns the rest of its stream with a proof about its length.
  `Reads x e r` forgets the proof: the outcome `x` is the tree `e` and the rest `r`. One lemma for
  each reader says when it reads something, in terms of the readers it calls (`readsPrimary_iff`,
  `readsUnary_iff`, `readsBinary_iff`, `readsOperators_iff`). No other proof here unfolds a reader.
* **Soundness** (`derives_of_readsBinary`): what a reader takes off its stream derives the tree it
  returns. The readers call each other, so their lemmas do, along the same measure.
* **Completeness** (`finds_of_derives`): tokens that derive a tree are read as that tree, by
  induction on the derivation. A reader of operators goes on as long as it can, so the statement is
  about a stream that goes on behind the tokens with nothing that the reader would take.
-/

namespace Dialogue

namespace Expr

/-! ## What a reader reads -/

/-- The outcome of a reader is the tree `e`, and `r` is left of the stream. -/
def Reads {P : TokenStream → Prop} (x : Except ConditionFault (Expr × { r : TokenStream // P r }))
    (e : Expr) (r : TokenStream) : Prop :=
  ∃ h : P r, x = .ok (e, ⟨r, h⟩)

@[simp] theorem reads_ok_iff {P : TokenStream → Prop} {y : Expr × { r : TokenStream // P r }}
    {e : Expr} {r : TokenStream} : Reads (.ok y) e r ↔ e = y.1 ∧ r = y.2.val := by
  constructor
  · rintro ⟨h, hx⟩
    cases hx
    exact ⟨rfl, rfl⟩
  · rintro ⟨rfl, rfl⟩
    exact ⟨y.2.property, rfl⟩

@[simp] theorem not_reads_error {P : TokenStream → Prop} {f : ConditionFault} {e : Expr}
    {r : TokenStream} :
    ¬ Reads (.error f : Except ConditionFault (Expr × { r : TokenStream // P r })) e r := by
  rintro ⟨h, hx⟩
  cases hx

variable {depth strength : Nat} {s r : TokenStream} {e left : Expr}

theorem readsPrimary_iff :
    Reads (readPrimary depth s) e r ↔
      (∃ v pos, s = .cons (.literal v) pos r ∧ e = .literal v) ∨
      (∃ x pos, s = .cons (.name x) pos r ∧ e = .variable x) ∨
      (∃ pos pos' inner, s = .cons .openParen pos inner ∧ depth < maxDepth ∧
        Reads (readBinary (depth + 1) 1 inner) e (.cons .closeParen pos' r)) := by
  rw [readPrimary.eq_def]
  split
  · simp [and_assoc, eq_comm, and_comm]
  · simp [and_assoc, eq_comm, and_comm]
  · next pos rest =>
    by_cases hd : depth < maxDepth
    · rw [if_pos hd]
      cases hb : readBinary (depth + 1) 1 rest with
      | error f => simp [hb, and_assoc, -TokenStream.length]
      | ok y =>
        obtain ⟨e', inside, h⟩ := y
        -- What is left inside has to start with the closing parenthesis.
        cases inside with
        | endOfText _ => simp [hb, readClose, and_assoc, -TokenStream.length]
        | fault _ => simp [hb, readClose, and_assoc, -TokenStream.length]
        | cons token pos' after =>
          cases token <;> simp [hb, hd, readClose, and_assoc, -TokenStream.length]
    · simp [hd]
  · simp_all

theorem readsUnary_iff :
    Reads (readUnary depth s) e r ↔
      (∃ pos rest e', s = .cons .bang pos rest ∧ depth < maxDepth ∧
        Reads (readUnary (depth + 1) rest) e' r ∧ e = .not e') ∨
      Reads (readPrimary depth s) e r := by
  rw [readUnary.eq_def]
  split
  · next pos rest =>
    have hp : ¬ Reads (readPrimary depth (.cons .bang pos rest)) e r := by
      simp [readsPrimary_iff, -TokenStream.length]
    by_cases hd : depth < maxDepth
    · rw [if_pos hd]
      cases hu : readUnary (depth + 1) rest <;>
        simp [hu, hp, hd, and_assoc, and_comm, -TokenStream.length]
    · simp [hd, hp, -TokenStream.length]
  · simp_all

theorem readsBinary_iff :
    Reads (readBinary depth strength s) e r ↔
      ∃ left mid, Reads (readUnary depth s) left mid ∧
        Reads (readOperators depth strength left mid) e r := by
  rw [readBinary]
  cases hu : readUnary depth s with
  | error f => simp
  | ok y =>
    obtain ⟨left, mid, h⟩ := y
    cases ho : readOperators depth strength left mid <;> simp [ho, and_assoc]

theorem readsOperators_iff :
    Reads (readOperators depth strength left s) e r ↔
      (∃ op pos rest right mid, s = .cons (.operator op) pos rest ∧ strength ≤ op.strength ∧
        Reads (readBinary depth (op.strength + 1) rest) right mid ∧
        Reads (readOperators depth strength (.binary op left right) mid) e r) ∨
      (e = left ∧ r = s ∧ s.Stops strength) := by
  rw [readOperators.eq_def]
  split
  · simp [TokenStream.Stops]
  · next op pos rest =>
    by_cases hop : op.strength < strength
    · have hnot : ¬ strength ≤ op.strength := Nat.not_le.2 hop
      simp [hop, hnot, TokenStream.Stops, and_assoc, -TokenStream.length]
    · rw [if_neg hop]
      cases hb : readBinary depth (op.strength + 1) rest with
      | error f => simp [hb, TokenStream.Stops, hop, and_assoc, -TokenStream.length]
      | ok y =>
        obtain ⟨right, mid, h⟩ := y
        cases ho : readOperators depth strength (.binary op left right) mid <;>
          simp [hb, ho, hop, TokenStream.Stops, and_assoc, Nat.le_of_not_lt hop,
            -TokenStream.length]
  · next hfault hop =>
    cases s with
    | endOfText _ => simp [TokenStream.Stops]
    | fault f => exact (hfault f rfl).elim
    | cons token _ _ => cases token <;> simp_all [TokenStream.Stops]

/-! ## Soundness -/

theorem length_lt_of_readsUnary (h : Reads (readUnary depth s) e r) : r.length < s.length :=
  h.1

theorem length_lt_of_readsBinary (h : Reads (readBinary depth strength s) e r) :
    r.length < s.length :=
  h.1

theorem stops_five_of_readsOperators (h : Reads (readOperators depth strength left s) e r) :
    s.Stops 5 := by
  rcases readsOperators_iff.1 h with ⟨op, pos, rest, right, mid, rfl, -, -, -⟩ | ⟨rfl, rfl, hs⟩
  · exact Nat.lt_succ_of_le op.strength_le_four
  · unfold TokenStream.Stops at hs ⊢
    split at hs <;> try trivial
    next op _ _ => exact Nat.lt_succ_of_le op.strength_le_four

open TokenStream

mutual
/-- What a reader of primary expressions takes off its stream derives what it returns. -/
theorem derives_of_readsPrimary {n depth : Nat} {s r : TokenStream} {e : Expr}
    (hn : depth + n = maxDepth) (h : Reads (readPrimary depth s) e r) :
    ∃ ts, Leads s ts r ∧ Derives n .primary ts e := by
  rcases readsPrimary_iff.1 h with ⟨v, pos, rfl, rfl⟩ | ⟨x, pos, rfl, rfl⟩ |
    ⟨pos, pos', inner, hs, hd, hb⟩
  · exact ⟨_, .cons _ pos (.nil r), .literal v⟩
  · exact ⟨_, .cons _ pos (.nil r), .name x⟩
  · -- The parentheses use up one of the levels that are left.
    obtain ⟨n, rfl⟩ : ∃ m, n = m + 1 := ⟨n - 1, by omega⟩
    have hlen : s.length = inner.length + 1 := by rw [hs]; rfl
    obtain ⟨ts, hts, hder, -⟩ :=
      derives_of_readsBinary .or (n := n) (by omega) (by decide) (by decide) hb
    rw [hs]
    exact ⟨_, .cons _ pos (hts.append (.cons _ pos' (.nil r))), .paren hder⟩
termination_by (s.length, 0)

/-- What a reader of unary expressions takes off its stream derives what it returns. -/
theorem derives_of_readsUnary {n depth : Nat} {s r : TokenStream} {e : Expr}
    (hn : depth + n = maxDepth) (h : Reads (readUnary depth s) e r) :
    ∃ ts, Leads s ts r ∧ Derives n .unary ts e := by
  rcases readsUnary_iff.1 h with ⟨pos, rest, e', hs, hd, hu, rfl⟩ | hp
  · obtain ⟨n, rfl⟩ : ∃ m, n = m + 1 := ⟨n - 1, by omega⟩
    have hlen : s.length = rest.length + 1 := by rw [hs]; rfl
    obtain ⟨ts, hts, hder⟩ := derives_of_readsUnary (n := n) (by omega) hu
    rw [hs]
    exact ⟨_, .cons _ pos hts, .not hder⟩
  · obtain ⟨ts, hts, hder⟩ := derives_of_readsPrimary hn hp
    exact ⟨ts, hts, .tighter hder⟩
termination_by (s.length, 1)

/-- What a reader of binary expressions takes off its stream derives what it returns, from every
level `low` that is no stronger than the reader was asked for; and it stops only where no operator
goes on. -/
theorem derives_of_readsBinary (low : Level) {n depth strength : Nat} {s r : TokenStream}
    {e : Expr} (hn : depth + n = maxDepth) (hlow : low.strength ≤ strength)
    (hunary : low.strength ≤ Level.unary.strength) (h : Reads (readBinary depth strength s) e r) :
    ∃ ts, Leads s ts r ∧ Derives n low ts e ∧ r.Stops strength := by
  obtain ⟨left, mid, hu, ho⟩ := readsBinary_iff.1 h
  have hlt := length_lt_of_readsUnary hu
  obtain ⟨ts, hts, hleft⟩ := derives_of_readsUnary hn hu
  obtain ⟨us, hus, hder, hr⟩ := derives_of_readsOperators low hn hlow hunary hleft
    ((stops_five_of_readsOperators ho).mono (by decide)) ho
  exact ⟨_, hts.append hus, hder, hr⟩
termination_by (s.length, 3)

/-- The reader of operators goes on from a left operand that the tokens `ts` derive from `level`,
where no operator that binds more strongly comes next. -/
theorem derives_of_readsOperators (low : Level) {n depth strength : Nat} {level : Level}
    {s r : TokenStream} {left e : Expr} {ts : List Token} (hn : depth + n = maxDepth)
    (hlow : low.strength ≤ strength) (hle : low.strength ≤ level.strength)
    (hleft : Derives n level ts left) (hstops : s.Stops (level.strength + 1))
    (h : Reads (readOperators depth strength left s) e r) :
    ∃ us, Leads s us r ∧ Derives n low (ts ++ us) e ∧ r.Stops strength := by
  rcases readsOperators_iff.1 h with ⟨op, pos, rest, right, mid, hs, hop, hb, ho⟩ | ⟨rfl, rfl, hr⟩
  · have hlen : s.length = rest.length + 1 := by rw [hs]; rfl
    have hlt := length_lt_of_readsBinary hb
    have hlevel : op.strength < level.strength + 1 := by rwa [hs] at hstops
    have hfour := op.strength_le_four
    obtain ⟨us, hus, hright, hmid⟩ := derives_of_readsBinary op.level.tighter hn
      (by simp) (by rw [BinaryOp.strength_tighter_level]; exact Nat.succ_le_succ hfour) hb
    -- The left operand falls to the level of the operator, and the operation is the next left
    -- operand.
    have hbinary := Derives.binary (hleft.of_strength_le op.level (by simp; omega)) hright
    obtain ⟨vs, hvs, hder, hr⟩ := derives_of_readsOperators low hn hlow (by simp; omega)
      hbinary (by simpa using hmid) ho
    rw [hs]
    exact ⟨_, .cons _ pos (hus.append hvs), by simpa using hder, hr⟩
  · exact ⟨[], .nil _, by simpa using hleft.of_strength_le low hle, hr⟩
termination_by (s.length, 2)
end

/-! ## Completeness -/

/-- A reader for `level` takes the tokens of the tree `e` off the stream `s` and leaves `rest`. For
a level with operators, the reader of binary expressions goes on behind `e` as the reader of
operators does, whichever strength up to that of the level it was asked for. -/
def Finds (depth : Nat) (s rest : TokenStream) (e : Expr) : Level → Prop
  | .primary => Reads (readPrimary depth s) e rest
  | .unary => Reads (readUnary depth s) e rest
  | level =>
    rest.Stops (level.strength + 1) →
      ∀ strength ≤ level.strength, ∀ e' r,
        Reads (readOperators depth strength e rest) e' r → Reads (readBinary depth strength s) e' r

theorem Finds.readsBinary {depth strength : Nat} {s rest r : TokenStream} {e e' : Expr}
    {level : Level} (h : Finds depth s rest e level) (hlevel : level.strength ≤ 5)
    (hs : rest.Stops (level.strength + 1)) (hle : strength ≤ level.strength)
    (ho : Reads (readOperators depth strength e rest) e' r) :
    Reads (readBinary depth strength s) e' r := by
  cases level with
  | or | and | eq | order => exact h hs strength hle e' r ho
  | unary => exact readsBinary_iff.2 ⟨e, rest, h, ho⟩
  | primary => exact absurd hlevel (by decide)

theorem Finds.of_tighter {depth : Nat} {s rest : TokenStream} {e : Expr} {level : Level}
    (h : Finds depth s rest e level.tighter) : Finds depth s rest e level := by
  cases level with
  | or | and | eq | order =>
    intro hs strength hle e' r ho
    exact h.readsBinary (by decide) (hs.mono (by decide)) (Nat.le_succ_of_le hle) ho
  | unary => exact readsUnary_iff.2 (.inr h)
  | primary => exact h

theorem finds_level_iff {depth : Nat} {s rest : TokenStream} {e : Expr} {op : BinaryOp} :
    Finds depth s rest e op.level ↔
      (rest.Stops (op.strength + 1) →
        ∀ strength ≤ op.strength, ∀ e' r,
          Reads (readOperators depth strength e rest) e' r →
            Reads (readBinary depth strength s) e' r) := by
  cases op <;> rfl

/-- **Completeness.** Tokens that derive a tree are found as that tree. -/
theorem finds_of_derives {n : Nat} {level : Level} {ts : List Token} {e : Expr}
    (h : Derives n level ts e) {depth : Nat} (hn : depth + n = maxDepth) {s rest : TokenStream}
    (hs : Leads s ts rest) : Finds depth s rest e level := by
  induction h generalizing depth s rest with
  | @binary n op l r a b _ _ ihl ihr =>
    obtain ⟨mid, hl, hr⟩ := hs.exists_of_append
    cases hr with
    | @cons _ pos sr _ _ hr =>
    rw [finds_level_iff]
    intro hrest strength hle e' r' ho
    have hfour := op.strength_le_four
    -- Behind the right operand nothing goes on at its strength.
    have hright : Reads (readBinary depth (op.strength + 1) sr) b rest :=
      (ihr hn hr).readsBinary (by simp; omega) (by simpa using hrest.mono (Nat.le_succ _))
        (by simp) (readsOperators_iff.2 (.inr ⟨rfl, rfl, hrest⟩))
    refine (ihl hn hl).readsBinary (by simp; omega) ?_ (by simpa using hle)
      (readsOperators_iff.2 (.inl ⟨op, pos, sr, b, rest, rfl, hle, hright, ho⟩))
    simp [Stops]
  | tighter _ ih => exact (ih hn hs).of_tighter
  | not _ ih =>
    cases hs with
    | @cons _ pos s _ _ hs =>
    exact readsUnary_iff.2 (.inl ⟨pos, s, _, rfl, by omega, ih (by omega) hs, rfl⟩)
  | literal v =>
    cases hs with
    | cons _ pos hs =>
    cases hs
    exact readsPrimary_iff.2 (.inl ⟨v, pos, rfl, rfl⟩)
  | name x =>
    cases hs with
    | cons _ pos hs =>
    cases hs
    exact readsPrimary_iff.2 (.inr (.inl ⟨x, pos, rfl, rfl⟩))
  | paren _ ih =>
    cases hs with
    | @cons _ pos inner _ _ hs =>
    obtain ⟨close, hinner, hclose⟩ := hs.exists_of_append
    cases hclose with
    | cons _ pos' hrest =>
    cases hrest
    refine readsPrimary_iff.2 (.inr (.inr ⟨pos, pos', inner, rfl, by omega, ?_⟩))
    -- A closing parenthesis is no operator, so the reader inside stops in front of it.
    exact (ih (by omega) hinner).readsBinary (by decide) trivial (by decide)
      (readsOperators_iff.2 (.inr ⟨rfl, rfl, trivial⟩))

/-! ## Texts -/

/-- The reader of a whole stream with a token in it accepts what the grammar derives from all its
tokens. -/
theorem ofTokens_eq_ok_iff {s : TokenStream} (hs : ∀ pos, s ≠ .endOfText pos) {e : Expr} :
    ofTokens s = .ok e ↔ ∃ ts, s.tokens = .ok ts ∧ Derives maxDepth .or ts e := by
  -- Reading all of `s` is reading an expression with the end of the text behind it.
  have hread : ofTokens s = .ok e ↔ ∃ pos, Reads (readBinary 0 1 s) e (.endOfText pos) := by
    cases s with
    | endOfText pos => exact absurd rfl (hs pos)
    | fault f =>
      constructor
      · intro h
        cases h
      · rintro ⟨pos, h⟩
        exact absurd (length_lt_of_readsBinary h) (Nat.not_lt_zero _)
    | cons token pos rest =>
      simp only [ofTokens]
      cases hb : readBinary 0 1 (.cons token pos rest) with
      | error f => simp
      | ok y =>
        obtain ⟨e', after, h⟩ := y
        cases after <;> simp [readEnd, eq_comm]
  rw [hread]
  constructor
  · rintro ⟨pos, h⟩
    obtain ⟨ts, hts, hder, -⟩ := derives_of_readsBinary .or (n := maxDepth)
      (Nat.zero_add _) (by decide) (by decide) h
    exact ⟨ts, tokens_eq_ok_iff.2 ⟨pos, hts⟩, hder⟩
  · rintro ⟨ts, hts, hder⟩
    obtain ⟨pos, hleads⟩ := tokens_eq_ok_iff.1 hts
    have hfinds := finds_of_derives hder (Nat.zero_add _) hleads
    exact ⟨pos, hfinds.readsBinary (by decide) trivial (by decide)
      (readsOperators_iff.2 (.inr ⟨rfl, rfl, trivial⟩))⟩

/-- **Reading is deriving.** A blank text holds the literal true. Any other text is read as the tree
`e` exactly when all of it scans into tokens and the grammar derives `e` from them, with at most
sixty-four parentheses and negations around any place. -/
theorem ofText_eq_ok_iff (cs : List Char) (e : Expr) :
    ofText cs = .ok e ↔
      if cs.all Text.isBlank then e = .literal (.bool true)
      else ∃ ts, (TokenStream.ofText cs).tokens = .ok ts ∧ Derives maxDepth .or ts e := by
  split
  · next h =>
    obtain ⟨pos, hs⟩ := ofText_eq_endOfText_iff.2 h
    simp [ofText, hs, ofTokens, eq_comm]
  · next h =>
    exact ofTokens_eq_ok_iff fun pos hs => h (ofText_eq_endOfText_iff.1 ⟨pos, hs⟩)

end Expr

end Dialogue
