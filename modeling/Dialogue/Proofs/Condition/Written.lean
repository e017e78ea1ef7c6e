import Dialogue.Condition.Printer
import Dialogue.Proofs.Condition.Cutting
import Dialogue.Proofs.Condition.Negated

/-!
# Expressions are read as they were written

`e.Written cs` says that the text `cs` is written for the expression `e`: with one space on either
side of a binary operator, with parentheses only where the grouping asks for them, and with some
numeral for each number. What is written for an expression is read back as the expression
(`Expr.ofText_of_written`), if no place of it is inside more parentheses and negations than the
reader allows. `Expr.render` writes every expression whose names and numbers have spellings
(`Expr.written_render`).

## Structure

The proof goes through the tokens that an expression is written with, `Expr.tokens`. Each half of it
knows of one side only.

* **Grammar** (`derives_tokens`): the tokens derive the expression, from the level of its outermost
  operator. Parentheses are exactly where this level is too weak for the place.
* **Lexer** (`Written.lexesBefore`): the text consists of the tokens. No spelling runs into the next
  one, as it is followed by a space, by a closing parenthesis or by the end (`LexesBefore`); only an
  exclamation mark is followed by something else, which never starts with an equals sign.
-/

namespace Dialogue

/-! ## Expressions that can be written -/

/-- The text is written for the expression. A number may have another numeral at each place. -/
inductive Expr.Written : Expr → List Char → Prop
  | literal {numeral : Float → List Char} {v : Value} :
      (∀ x, v = .number x → Spells (numeral x) (.literal v)) →
      Written (.literal v) (v.literalText numeral)
  | name {name : String} : Spells name.toList (.name name) → Written (.variable name) name.toList
  | not {e : Expr} {cs : List Char} : Written e cs →
      Written (.not e) ('!' :: enclose (groupsUnderNot e) cs)
  | binary {op : BinaryOp} {left right : Expr} {cs ds : List Char} : Written left cs →
      Written right ds →
      Written (.binary op left right)
        (enclose (groupsLeft op left) cs ++ ' ' :: op.symbol.toList ++
          ' ' :: enclose (groupsRight op right) ds)

/-- The names of the expression are words that are no keywords, and the numerals given for its
numbers are numerals of them. All other literals can be written. -/
def Expr.Spelled (numeral : Float → List Char) : Expr → Prop
  | .literal (.number x) => Spells (numeral x) (.literal (.number x))
  | .literal _ => True
  | .variable name => Spells name.toList (.name name)
  | .not e => e.Spelled numeral
  | .binary _ left right => left.Spelled numeral ∧ right.Spelled numeral

namespace Expr

/-- An expression that can be written is. -/
theorem written_render {numeral : Float → List Char} {e : Expr} (h : e.Spelled numeral) :
    e.Written (e.render numeral) := by
  induction e with
  | literal v =>
    refine .literal fun x hv => ?_
    subst hv
    exact h
  | «variable» name => exact .name h
  | not e ih => exact .not (ih h)
  | binary op left right ihl ihr => exact .binary (ihl h.1) (ihr h.2)

/-- Tokens, in parentheses if they need them. -/
def encloseTokens (grouped : Bool) (ts : List Token) : List Token :=
  if grouped then .openParen :: ts ++ [.closeParen] else ts

/-- The tokens that an expression is written with. -/
def tokens : Expr → List Token
  | .literal v => [.literal v]
  | .variable name => [.name name]
  | .not e => .bang :: encloseTokens (groupsUnderNot e) e.tokens
  | .binary op left right =>
    encloseTokens (groupsLeft op left) left.tokens ++
      .operator op :: encloseTokens (groupsRight op right) right.tokens

/-- The tightest level of the grammar that an expression belongs to without parentheses. -/
def level : Expr → Level
  | .binary op _ _ => op.level
  | .not _ => .unary
  | .literal _ => .primary
  | .variable _ => .primary

theorem strength_le_level (e : Expr) : e.strength ≤ e.level.strength := by
  cases e with
  | literal v => exact Nat.le_succ 5
  | «variable» name => exact Nat.le_succ 5
  | not e => exact Nat.le_refl 5
  | binary op left right => exact (BinaryOp.strength_level op).ge

end Expr

/-! ## Grammar -/

/-- There may be more parentheses and negations around than there are. -/
theorem Derives.mono {n m : Nat} {level : Level} {ts : List Token} {e : Expr}
    (h : Derives n level ts e) (hle : n ≤ m) : Derives m level ts e := by
  induction hle with
  | refl => exact h
  | step _ ih => exact ih.succ

namespace Expr

/-- In parentheses an expression is of every level, and without them of those that are no stronger
than its own. -/
theorem derives_enclosed {n : Nat} {ts : List Token} {e : Expr} (h : Derives n e.level ts e)
    (grouped : Bool) (level : Level)
    (hlevel : grouped = false → level.strength ≤ e.level.strength) :
    Derives (n + grouped.toNat) level (encloseTokens grouped ts) e := by
  cases grouped with
  | false => exact h.of_strength_le level (hlevel rfl)
  | true =>
    have hinner : Derives n .or ts e := h.of_strength_le .or e.level.strength_or_le
    exact (Derives.paren hinner).of_strength_le level level.strength_le_six

/-- **The tokens that an expression is written with derive it.** -/
theorem derives_tokens (e : Expr) : Derives e.nesting e.level e.tokens e := by
  induction e with
  | literal v => exact .literal v
  | «variable» name => exact .name name
  | not e ih =>
    refine .not (derives_enclosed ih _ .unary fun hgroup => ?_)
    have hstrength : 5 ≤ e.strength := by simpa [groupsUnderNot] using hgroup
    exact hstrength.trans e.strength_le_level
  | binary op left right ihl ihr =>
    have hleft := derives_enclosed ihl (groupsLeft op left) op.level fun hgroup => by
      have hstrength : op.strength ≤ left.strength := by simpa [groupsLeft] using hgroup
      rw [BinaryOp.strength_level]
      exact hstrength.trans left.strength_le_level
    have hright := derives_enclosed ihr (groupsRight op right) op.level.tighter fun hgroup => by
      have hstrength : op.strength < right.strength := by simpa [groupsRight] using hgroup
      rw [BinaryOp.strength_tighter_level]
      exact hstrength.trans_le right.strength_le_level
    exact .binary (hleft.mono (Nat.le_max_left _ _)) (hright.mono (Nat.le_max_right _ _))

end Expr

/-! ## Lexer -/

namespace Lexes

variable {cs piece rest : List Char} {token : Token} {ts : List Token}

/-- A space in front makes no difference. -/
theorem space (h : Lexes cs ts) : Lexes (' ' :: cs) ts :=
  h.of_dropWhile_eq (List.dropWhile_cons_of_pos (by decide))

/-- A spelling that nothing joins is a token of its own. -/
theorem of_spells (h : Spells piece token) (hnext : ∀ c ∈ rest.head?, token.joins c = false)
    (hrest : Lexes rest ts) : Lexes (piece ++ rest) (token :: ts) := by
  have hscan := Scan.scan_of_spells h hnext 0
  have hdrop : (piece ++ rest).dropWhile Text.isBlank = piece ++ rest := by
    obtain ⟨c, tail, rfl, hc⟩ := h.exists_head
    rw [List.cons_append, List.dropWhile_cons_of_neg (by simp [hc])]
  refine .cons ?_ h.ne_endOfText ?_
  · rw [hdrop, hscan]
  · rw [hdrop, hscan]
    exact hrest

end Lexes

/-- In front of a space, a closing parenthesis or the end, the text consists of the tokens. -/
def LexesBefore (cs : List Char) (ts : List Token) : Prop :=
  ∀ rest us, Lexes rest us → (∀ c ∈ rest.head?, c = ' ' ∨ c = ')') → Lexes (cs ++ rest) (ts ++ us)

/-- Only word characters, points and equals signs join tokens. -/
theorem Token.joins_of_not_word (token : Token) {c : Char} (hword : Text.isWordChar c = false)
    (hpoint : c ≠ '.') (hequals : c ≠ '=') : token.joins c = false := by
  unfold joins
  split <;> simp [hword, hpoint, hequals]

/-- Neither a space nor a closing parenthesis joins a token. -/
theorem Token.joins_eq_false (token : Token) {c : Char} (hc : c = ' ' ∨ c = ')') :
    token.joins c = false := by
  rcases hc with rfl | rfl <;>
    exact token.joins_of_not_word (by decide) (by decide) (by decide)

theorem Spells.lexesBefore {cs : List Char} {token : Token} (h : Spells cs token) :
    LexesBefore cs [token] :=
  fun _ _ hrest hend => .of_spells h (fun c hc => token.joins_eq_false (hend c hc)) hrest

/-- With a character in front of it that joins nothing, and a closing parenthesis behind it. -/
theorem LexesBefore.enclose {cs : List Char} {ts : List Token} (h : LexesBefore cs ts)
    (grouped : Bool) : LexesBefore (Expr.enclose grouped cs) (Expr.encloseTokens grouped ts) := by
  cases grouped with
  | false => exact h
  | true =>
    intro rest us hrest hend
    have hclose : Lexes (')' :: rest) (.closeParen :: us) :=
      .of_spells .closeParen (fun _ _ => rfl) hrest
    have hinner := h _ _ hclose fun c hc => .inr (Option.mem_some_iff.mp hc).symm
    have hopen := Lexes.of_spells .openParen (fun _ _ => rfl) hinner
    simpa [Expr.enclose, Expr.encloseTokens] using hopen

/-- Only the operator of equality is spelled with an equals sign in front. -/
theorem Spells.eq_of_equals {cs : List Char} {token : Token} (h : Spells ('=' :: cs) token) :
    token = .operator .eq := by
  have hscan : scan 0 ('=' :: cs ++ []) = ⟨.ok token, '=' :: cs, []⟩ :=
    Scan.scan_of_spells h (fun _ hc => absurd hc (by simp)) 0
  rw [List.append_nil, scan, Scan.doubled.eq_def] at hscan
  split at hscan
  · cases hscan
  · split at hscan <;> cases hscan
    rfl

/-- A keyword in small letters spells its value. -/
theorem spells_of_mem_keywords {word : List Char} {v : Value} (h : (word, v) ∈ Spelling.keywords) :
    Spells word (.literal v) := by
  refine .keyword ?_ h (beq_self_eq_true _)
  simp only [Spelling.keywords, List.mem_cons, List.not_mem_nil, or_false] at h
  rcases h with heq | heq | heq
  all_goals
    cases heq
    exact .mk (by decide) (List.all_eq_true.mp (by decide))

/-- A letter for itself is a name. -/
theorem Spells.of_isLetter {c : Char} (hc : Text.isLetter c = true) :
    Spells [c] (.name (String.ofList [c])) := by
  refine .name (.mk (.inl hc) (by simp)) fun k hk => ?_
  simp only [Spelling.keywords, List.mem_cons, List.not_mem_nil, or_false] at hk
  rcases hk with rfl | rfl | rfl <;> simp [Text.sameIgnoringCase]

/-- Between its quotes a text stands with a backslash before every quote and every backslash. -/
theorem Spelling.inside_flatMap_quotedChar (cs : List Char) :
    Inside (cs.flatMap quotedChar) cs := by
  induction cs with
  | nil => exact .nil
  | cons c cs ih =>
    rw [List.flatMap_cons, quotedChar]
    by_cases hquote : c = '"'
    · subst hquote
      exact ih.quote
    · by_cases hbackslash : c = '\\'
      · subst hbackslash
        exact ih.backslash
      · rw [if_neg (not_or.mpr ⟨hquote, hbackslash⟩)]
        exact ih.plain hquote hbackslash

theorem Value.spells_literalText {numeral : Float → List Char} {v : Value}
    (h : ∀ x, v = .number x → Spells (numeral x) (.literal v)) :
    Spells (v.literalText numeral) (.literal v) := by
  cases v with
  | bool b => cases b <;> exact spells_of_mem_keywords (by simp [Spelling.keywords, literalText])
  | number x => exact h x rfl
  | string s =>
    have hspells := Spells.string (Spelling.inside_flatMap_quotedChar s.toList)
    rwa [String.ofList_toList] at hspells
  | null => exact spells_of_mem_keywords (by simp [Spelling.keywords, literalText])

namespace Expr

theorem head_enclose_append_ne_equals {cs rest : List Char} (h : ∀ c ∈ cs.head?, c ≠ '=')
    (hrest : ∀ c ∈ rest.head?, c ≠ '=') (grouped : Bool) :
    ∀ c ∈ (enclose grouped cs ++ rest).head?, c ≠ '=' := by
  cases grouped with
  | false =>
    intro c hc
    rw [enclose, if_neg Bool.false_ne_true, List.head?_append, Option.mem_def,
      Option.or_eq_some_iff] at hc
    rcases hc with hc | ⟨-, hc⟩
    · exact h c hc
    · exact hrest c hc
  | true =>
    rintro c ⟨⟩
    decide

namespace Written

variable {e : Expr} {cs : List Char}

/-- What is written for an expression does not start with an equals sign. -/
theorem head_ne_equals (h : e.Written cs) : ∀ c ∈ cs.head?, c ≠ '=' := by
  have hspells : ∀ {cs token}, Spells cs token → token ≠ .operator .eq →
      ∀ c ∈ cs.head?, c ≠ '=' := by
    rintro cs token hspells hne c hc rfl
    obtain ⟨tail, rfl⟩ := List.head?_eq_some_iff.mp hc
    exact hne hspells.eq_of_equals
  induction h with
  | literal hv => exact hspells (Value.spells_literalText hv) (by simp)
  | name hname => exact hspells hname (by simp)
  | not _ _ =>
    rintro c ⟨⟩
    decide
  | binary _ _ ihl _ =>
    rw [List.append_assoc]
    refine head_enclose_append_ne_equals ihl ?_ _
    rintro c ⟨⟩
    decide

/-- **What is written for an expression consists of its tokens.** -/
theorem lexesBefore (h : e.Written cs) : LexesBefore cs e.tokens := by
  induction h with
  | literal hv => exact (Value.spells_literalText hv).lexesBefore
  | name hname => exact hname.lexesBefore
  | @not e cs h ih =>
    intro rest us hrest hend
    have hinner := ih.enclose (groupsUnderNot e) rest us hrest hend
    have hhead : ∀ c ∈ rest.head?, c ≠ '=' := by
      intro c hc
      rcases hend c hc with rfl | rfl <;> decide
    have hne := head_enclose_append_ne_equals h.head_ne_equals hhead (groupsUnderNot e)
    show Lexes (['!'] ++ (enclose _ cs ++ rest)) _
    exact .of_spells .bang (fun c hc => beq_false_of_ne (hne c hc)) hinner
  | @binary op left right cs ds _ _ ihl ihr =>
    intro rest us hrest hend
    have hright := (ihr.enclose (groupsRight op right) rest us hrest hend).space
    have hop := (Lexes.of_spells (.operator op)
      (fun c hc => Token.joins_eq_false _ (.inl (Option.mem_some_iff.mp hc).symm)) hright).space
    have hleft := ihl.enclose (groupsLeft op left) _ _ hop
      fun c hc => .inl (Option.mem_some_iff.mp hc).symm
    simpa [tokens] using hleft

end Written

end Expr

/-- **Every expression can be written and read back.** -/
theorem Expr.ofText_of_written {e : Expr} {cs : List Char} (h : e.Written cs)
    (hdepth : e.nesting ≤ maxDepth) : ofText cs = .ok e := by
  have hlexes : Lexes cs e.tokens := by
    have hbefore := h.lexesBefore [] [] (.blank rfl) (by simp)
    rwa [List.append_nil, List.append_nil] at hbefore
  have hderives : Derives maxDepth .or e.tokens e :=
    (e.derives_tokens.of_strength_le .or e.level.strength_or_le).mono hdepth
  exact ofText_of_lexes hlexes hderives

/-- A negated disjunction on the left of a comparison, with a quote in a string and a number on the
right. -/
theorem Expr.ofText_of_written_negated_disjunction :
    let one := (⟨false, 1, 0⟩ : Decimal).toFloat
    let e := binary .less (.not (binary .or (.variable "gold") (.literal (.string "\""))))
      (.literal (.number one))
    e.Written "!(gold || \"\\\"\") < 1".toList ∧ e.nesting ≤ maxDepth ∧
      ofText "!(gold || \"\\\"\") < 1".toList = .ok e := by
  intro one e
  have hgold : Spells "gold".toList (.name (String.ofList "gold".toList)) :=
    .name (.mk (by decide) (List.all_eq_true.mp (by decide))) (by decide)
  have hone : Spelling.Numeral (['1'] ++ [] ++ []) ⟨false, 1, 0⟩ :=
    .mk ⟨by decide, List.all_eq_true.mp (by decide)⟩ .none .none
  have hspelled : e.Spelled (fun _ => ['1']) := ⟨⟨hgold, trivial⟩, .number hone⟩
  have hrender : e.render (fun _ => ['1']) = "!(gold || \"\\\"\") < 1".toList := by decide
  have hwritten : e.Written "!(gold || \"\\\"\") < 1".toList := hrender ▸ written_render hspelled
  exact ⟨hwritten, by decide, ofText_of_written hwritten (by decide)⟩

end Dialogue
