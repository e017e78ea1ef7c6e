import Dialogue.Condition.Scan
import Dialogue.Text.Blank

/-!
# The lexer of conditions

A lexer stands somewhere in a text and hands out its tokens one by one, with one token of lookahead.
Blanks between tokens are skipped. A fault does not end a lexer: the next call goes on behind the
characters that the failed scan took. At the end of the text every call finds the end again.
-/

namespace Dialogue

/-- A place in a text: what is left of it, how many characters come before that, and the token
scanned ahead, if any. -/
structure Lexer where
  rest : List Char
  pos : Nat
  ahead : Option PlacedToken

namespace Lexer

/-- The lexer at the start of a text. -/
def ofText (cs : List Char) : Lexer := ⟨cs, 0, none⟩

/-- Scans the next token behind the place where the lexer stands, lookahead aside. -/
def advance (l : Lexer) : Except ConditionFault PlacedToken × Lexer :=
  let pos := l.pos + (l.rest.takeWhile Text.isBlank).length
  let s := scan pos (l.rest.dropWhile Text.isBlank)
  (s.found.map fun token => ⟨token, pos⟩, ⟨s.rest, pos + s.taken.length, none⟩)

/-- The next token, which stays the next one. -/
def peek (l : Lexer) : Except ConditionFault PlacedToken × Lexer :=
  match l.ahead with
  | some t => (.ok t, l)
  | none =>
    match l.advance with
    | (.ok t, l') => (.ok t, { l' with ahead := some t })
    | (.error e, l') => (.error e, l')

/-- The next token, and the lexer behind it. -/
def next (l : Lexer) : Except ConditionFault PlacedToken × Lexer :=
  match l.ahead with
  | some t => (.ok t, { l with ahead := none })
  | none => l.advance

/-- A step that does not find the end of the text leaves less of it. -/
theorem length_rest_advance_lt (l : Lexer)
    (h : ∀ pos, l.advance.1 ≠ .ok ⟨.endOfText, pos⟩) :
    l.advance.2.rest.length < l.rest.length := by
  have hle : (l.rest.dropWhile Text.isBlank).length ≤ l.rest.length :=
    (List.dropWhile_suffix _).length_le
  cases hd : l.rest.dropWhile Text.isBlank with
  | nil =>
    refine absurd ?_ (h (l.pos + (l.rest.takeWhile Text.isBlank).length))
    simp [advance, hd, scan, Except.map]
  | cons c cs =>
    have := Scan.length_rest_scan_lt (l.pos + (l.rest.takeWhile Text.isBlank).length) c cs
    rw [hd] at hle
    simp only [advance, hd]
    omega

end Lexer

end Dialogue
