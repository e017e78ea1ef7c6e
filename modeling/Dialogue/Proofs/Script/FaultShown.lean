import Dialogue.Proofs.Script.FaultCause
import Dialogue.Proofs.Script.FirstFault
import Dialogue.Proofs.Script.Provenance

/-!
# Where a report points

A report gives a line of the script, by its number and as it stands, and columns of it. Both are
those of the thing that the fault is about: `Code.IsAbout` says which line of the script that is, by
the code of the fault. A branch that is left open is shown at its opener, the innermost one of those
that the body of its section leaves open.

Numbers in a report have 32 bits. The line is told by its number only in scripts of fewer lines, and
the column of a tag wraps around in a line of as many characters.
-/

namespace Dialogue

/-! ## Places -/

/-- The fault of a tag is shown within the text of its entry. -/
theorem TagFault.offset_lt {cs : List Char} {e : TagFault} (h : EntryText.ofText cs = .error e) :
    e.offset cs < cs.length := by
  rw [offset]
  split
  · next hfind =>
    obtain ⟨word, c, tail, rfl, -⟩ := Tag.eq_of_find? hfind
    rw [List.length_append]
    exact Nat.lt_add_of_pos_right (Nat.succ_pos _)
  · rw [List.length_pos_iff]
    rintro rfl
    cases h

/-! ## What a report is about -/

namespace Graph

/-- A script with two branches that are left open, one inside the other, and one between them that
is closed under an entry. -/
def cellarScript : String :=
  "title: Cellar\n---\n<<if lamp>>\n<<if key>>\n-> Open\n    <<endif>>\n  <<if rope>>\nDown!\n===\n"

/-- The report of the inner one. -/
def cellarReport : Report :=
  .ofCode "cellar" ⟨101⟩ "<<if>> block reached end of node without <<endif>>" ⟨7, 1, 13⟩
    "  <<if rope>>" (some "close the block with <<endif>>")

end Graph

end Dialogue
