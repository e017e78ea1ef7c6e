import Dialogue.Condition.TokenStream

/-!
# Reading expressions

The grammar of conditions, from the weakest operators to the strongest:

    or      ::= or '||' and | and
    and     ::= and '&&' eq | eq
    eq      ::= eq ('==' | '!=') order | order
    order   ::= order ('<' | '<=' | '>' | '>=') unary | unary
    unary   ::= '!' unary | primary
    primary ::= literal | name | '(' or ')'

The reader climbs the strengths: `readBinary depth s strength` reads the longest expression whose
outermost operators bind at least as strongly as `strength`, an operand first and then operators
with their right operands, which have to bind more strongly; so operators of one strength group to
the left. `depth` counts the parentheses and negations around the place of reading, of which there
may be sixty-four.

Every reader returns the rest of the stream with a proof that it is shorter, so the recursion ends
by the length of the stream, and at equal length by the level of the grammar. Both are counted in
one number, which lets the readers run on given conditions inside of proofs.
-/

namespace Dialogue.Expr

/-- How many parentheses and negations may stand around one place of a condition. -/
def maxDepth : Nat := 64

/-- An expression and the rest of the stream `s`, which is shorter. -/
abbrev Read (s : TokenStream) :=
  Except ConditionFault (Expr × { r : TokenStream // r.length < s.length })

/-- An expression and the rest of the stream `s`, which is no longer. -/
abbrev ReadTail (s : TokenStream) :=
  Except ConditionFault (Expr × { r : TokenStream // r.length ≤ s.length })

/-- The fault of meeting a token that fits nowhere here. -/
def unexpected : TokenStream → ConditionFault
  | .endOfText pos => .unexpectedToken .endOfText pos
  | .fault e => e
  | .cons token pos _ => .unexpectedToken token pos

/-- The stream behind a closing parenthesis. -/
def readClose : (s : TokenStream) → Except ConditionFault { r : TokenStream // r.length < s.length }
  | .cons .closeParen _ rest => .ok ⟨rest, Nat.lt_succ_self _⟩
  | s => .error (unexpected s)

/-- The end of the text, or the fault of what stands in its place. -/
def readEnd : TokenStream → Except ConditionFault Unit
  | .endOfText _ => .ok ()
  | .fault e => .error e
  | .cons found pos _ => .error (.trailingToken found pos)

mutual
/-- A literal, a name, or an expression in parentheses. -/
def readPrimary (depth : Nat) (s : TokenStream) : Read s :=
  match s with
  | .cons (.literal v) _ rest => .ok (.literal v, ⟨rest, Nat.lt_succ_self _⟩)
  | .cons (.name x) _ rest => .ok (.variable x, ⟨rest, Nat.lt_succ_self _⟩)
  | .cons .openParen pos rest =>
    if depth < maxDepth then
      match readBinary (depth + 1) 1 rest with
      | .error e => .error e
      | .ok (e, ⟨inside, h⟩) =>
        match readClose inside with
        | .error e => .error e
        | .ok ⟨after, h'⟩ => .ok (e, ⟨after, Nat.lt_succ_of_lt (Nat.lt_trans h' h)⟩)
    else .error (.tooDeep maxDepth pos)
  | other => .error (unexpected other)
termination_by 4 * s.length

/-- A negation or a primary expression. -/
def readUnary (depth : Nat) (s : TokenStream) : Read s :=
  match s with
  | .cons .bang pos rest =>
    if depth < maxDepth then
      match readUnary (depth + 1) rest with
      | .error e => .error e
      | .ok (e, ⟨after, h⟩) => .ok (.not e, ⟨after, Nat.lt_succ_of_lt h⟩)
    else .error (.tooDeep maxDepth pos)
  | s => readPrimary depth s
termination_by 4 * s.length + 1

/-- An expression whose outermost operators bind at least as strongly as `strength`. -/
def readBinary (depth strength : Nat) (s : TokenStream) : Read s :=
  match readUnary depth s with
  | .error e => .error e
  | .ok (left, ⟨rest, h⟩) =>
    match readOperators depth strength left rest with
    | .error e => .error e
    | .ok (e, ⟨after, h'⟩) => .ok (e, ⟨after, Nat.lt_of_le_of_lt h' h⟩)
termination_by 4 * s.length + 3

/-- The operators behind the operand `left` that bind at least as strongly as `strength`, with
their right operands. -/
def readOperators (depth strength : Nat) (left : Expr) (s : TokenStream) : ReadTail s :=
  match s with
  | .fault e => .error e
  | .cons (.operator op) pos rest =>
    if op.strength < strength then
      .ok (left, ⟨.cons (.operator op) pos rest, Nat.le_refl _⟩)
    else
      match readBinary depth (op.strength + 1) rest with
      | .error e => .error e
      | .ok (right, ⟨after, h⟩) =>
        match readOperators depth strength (.binary op left right) after with
        | .error e => .error e
        | .ok (e, ⟨last, h'⟩) => .ok (e, ⟨last, by simp only [TokenStream.length]; omega⟩)
  | s => .ok (left, ⟨s, Nat.le_refl _⟩)
termination_by 4 * s.length + 2
end

/-- The expression that a whole stream holds; a stream without tokens holds the literal true. -/
def ofTokens : TokenStream → Except ConditionFault Expr
  | .endOfText _ => .ok (.literal (.bool true))
  | .fault e => .error e
  | .cons token pos rest =>
    match readBinary 0 1 (.cons token pos rest) with
    | .error e => .error e
    | .ok (e, ⟨after, _⟩) => (readEnd after).map fun _ => e

/-- The expression that a text holds; a blank text holds the literal true, so a condition that is
not there always holds. -/
def ofText (cs : List Char) : Except ConditionFault Expr := ofTokens (.ofText cs)

end Dialogue.Expr
