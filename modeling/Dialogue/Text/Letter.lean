import Dialogue.Text.LetterTable
import Dialogue.Text.NumberTable
import Dialogue.Text.CodeTable

/-!
# Letters and word characters

A *letter* has the Alphabetic property, a *number character* is of category Nd, Nl or No. Names are
made of *word characters*: letters, number characters and the underscore.
-/

namespace Dialogue.Text

/-- Whether a character is a letter: it has the Alphabetic property. -/
def isLetter (c : Char) : Bool := inRanges c.toNat letterCodes

/-- Whether a character is of category Nd, Nl or No. -/
def isNumberChar (c : Char) : Bool := inRanges c.toNat numberCodes

/-- Whether a character may stand inside a name: a letter, a number character or an underscore. -/
def isWordChar (c : Char) : Bool := isLetter c || isNumberChar c || c == '_'

theorem ordered_letterCodes : orderedFrom 0 letterCodes = true := by decide +kernel

theorem ordered_numberCodes : orderedFrom 0 numberCodes = true := by decide +kernel

/-- Letters are word characters. -/
theorem isWordChar_of_isLetter {c : Char} (h : isLetter c = true) : isWordChar c = true := by
  simp [isWordChar, h]

end Dialogue.Text
