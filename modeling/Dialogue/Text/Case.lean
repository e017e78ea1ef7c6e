import Dialogue.Text.CaseTable
import Dialogue.Text.CodeTable

/-!
# Letter case

Two notions of case live here.

`lowercase` is the full lower-case mapping of Unicode for a whole text. Three rules make it up: the
capital sigma becomes a final sigma at the end of a word and a medial sigma elsewhere; the dotted
capital I becomes two characters; every other character follows the table of single characters.

`sameIgnoringCase` compares two texts up to the case of the ASCII letters only; it is how keywords
are recognised.
-/

namespace Dialogue.Text

/-! ### The mapping of single characters -/

/-- The code that the rows give for `n`; a code in no row stays as it is. -/
def lowerCode (n : Nat) : List CaseRow → Nat
  | [] => n
  | row :: rest =>
    if n < row.first then n
    else if n ≤ row.last then
      if (n - row.first) % row.stride = 0 then n + row.up - row.down else n
    else lowerCode n rest

/-- The simple lower-case form of a character. -/
def lowerChar (c : Char) : Char := Char.ofNat (lowerCode c.toNat lowercaseRows)

/-! ### The end of a word -/

/-- Whether a character has a case. -/
def isCased (c : Char) : Bool := inRanges c.toNat casedCodes

/-- Whether a character is passed over when the end of a word is looked for. -/
def isCaseIgnorable (c : Char) : Bool := inRanges c.toNat caseIgnorableCodes

/-- Whether the first character that counts is cased. -/
def startsCased (cs : List Char) : Bool :=
  match cs.dropWhile isCaseIgnorable with
  | [] => false
  | c :: _ => isCased c

/-- Whether a sigma between `before` (nearest character first) and `after` ends a word: a cased
character comes before it and none comes after it. -/
def endsWord (before after : List Char) : Bool := startsCased before && !startsCased after

/-! ### The mapping of a text -/

/-- The lower-case form of `c`, which stands between `before` (nearest character first) and
`after`. -/
def lowerAt (before : List Char) (c : Char) (after : List Char) : List Char :=
  if c = '\u03a3' then [if endsWord before after then '\u03c2' else '\u03c3']
  else if c = '\u0130' then ['i', '\u0307']
  else [lowerChar c]

/-- The lower-case form of a text that follows `before` (nearest character first). -/
def lowercaseAfter (before : List Char) : List Char → List Char
  | [] => []
  | c :: after => lowerAt before c after ++ lowercaseAfter (c :: before) after

/-- The lower-case form of a text. -/
def lowercase (cs : List Char) : List Char := lowercaseAfter [] cs

/-! ### Keywords -/

/-- Equality of texts up to the case of ASCII letters. -/
def sameIgnoringCase (a b : List Char) : Bool := a.map Char.toLower == b.map Char.toLower

theorem ordered_casedCodes : orderedFrom 0 casedCodes = true := by decide +kernel

theorem ordered_caseIgnorableCodes : orderedFrom 0 caseIgnorableCodes = true := by decide +kernel

@[simp] theorem sameIgnoringCase_self (cs : List Char) : sameIgnoringCase cs cs = true := by
  simp [sameIgnoringCase]

end Dialogue.Text
