import Dialogue.Condition.Lexer

/-!
# Token streams

The tokens of a text, scanned on demand, form a `TokenStream`: a list of placed tokens that ends
either with the end of the text or with the fault that stopped the scan. A reader of a stream meets
a fault only when it gets there, so a fault in the order of the tokens is found before a bad
character further on.

`TokenStream.toList` is the strict view: all tokens, the end of the text as the last one, or else
the fault.
-/

namespace Dialogue

/-- The tokens of a text up to its end or to the first fault. -/
inductive TokenStream where
  | endOfText (pos : Nat)
  | fault (e : ConditionFault)
  | cons (token : Token) (pos : Nat) (rest : TokenStream)

namespace TokenStream

/-- How many tokens come before the end. -/
@[simp] def length : TokenStream → Nat
  | .endOfText _ => 0
  | .fault _ => 0
  | .cons _ _ rest => rest.length + 1

/-- The tokens that a lexer will find. -/
def ofLexer (l : Lexer) : TokenStream :=
  match _h : l.advance with
  | (.error e, _) => .fault e
  | (.ok t, l') =>
    if _hend : t.token = .endOfText then .endOfText t.pos
    else .cons t.token t.pos (ofLexer l')
termination_by l.rest.length
decreasing_by
  have := l.length_rest_advance_lt (by grind)
  rwa [_h] at this

/-- The tokens of a text. -/
def ofText (cs : List Char) : TokenStream := ofLexer (.ofText cs)

/-- All tokens with the end of the text as the last one, or the fault that stopped the scan. -/
def toList : TokenStream → Except ConditionFault (List PlacedToken)
  | .endOfText pos => .ok [⟨.endOfText, pos⟩]
  | .fault e => .error e
  | .cons token pos rest => rest.toList.map (⟨token, pos⟩ :: ·)

end TokenStream

end Dialogue
