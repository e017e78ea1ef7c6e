import Dialogue.Proofs.Script.Concatenation
import Dialogue.Proofs.Text.LineEnds

/-!
# The first fault of a script

Reading stops at the first line that cannot be read, and what comes below that line does not matter:
a script that is continued fails with the very same report (`Graph.ofText_continued`). One fault is
left out, since it is not found at a line: a branch that is still open when the script ends, which
the lines below may close.

A script that ends with a carriage return takes the line feed behind it for a part of its last
ending. Its last line, which is empty, is not a line of the continued script then; but no fault is
found at an empty line (`Draft.exists_readLine_of_blank`).
-/

namespace Dialogue

/-! ## Lines below a fault -/

namespace Draft

variable {d : Draft} {number : Nat} {lines : List String} {e : PlacedFault}

/-- A fault is found before the lines below are looked at. -/
theorem readLines_append_of_error (h : d.readLines number lines = .error e) (more : List String) :
    d.readLines number (lines ++ more) = .error e := by
  rw [readLines_append, h]

/-- A blank line can always be read. -/
theorem exists_readLine_of_blank {line : List Char} (h : Text.trim line = []) (d : Draft)
    (number : Nat) : ∃ d', d.readLine number line = .ok d' := by
  have harrow : arrow? line = none := by
    apply arrow?_eq_none
    rw [h]
    decide
  have hbody : commandBody? line = none := by
    rw [commandBody?, h]
  have htitle : titleName? [] = none := by decide
  rw [readLine_eq_readSettled harrow hbody, readSettled, h, htitle]
  simp only [isClose, isFence, List.nil_beq_eq]
  cases d.settle.place with
  | outside => exact ⟨_, rfl⟩
  | header name span => exact ⟨_, rfl⟩
  | body b => exact ⟨_, rfl⟩

/-- So a blank line at the end of some lines has no fault. -/
theorem readLines_of_append_blank {line : String} (hblank : Text.trim line.toList = [])
    (h : d.readLines number (lines ++ [line]) = .error e) :
    d.readLines number lines = .error e := by
  rw [readLines_append] at h
  split at h
  · next heq =>
    cases h
    exact heq
  · next d' heq =>
    obtain ⟨d'', hread⟩ := exists_readLine_of_blank hblank d' (number + lines.length)
    rw [readLines, hread] at h
    cases h

/-- What is found at the end of a script is a branch that is still open. -/
theorem fault_of_finish {fault : ScriptFault} {span : Span} (h : d.finish = .error (fault, span)) :
    fault = .openIfAtEndOfScript := by
  rw [finish, Outcome.map_eq_error_iff, closeNode.eq_def] at h
  split at h
  · cases h
  · cases h
  · split at h
    · cases h
    · cases h
      rfl

end Draft

/-! ## Reports -/

/-- The report of a branch that is still open when the script ends. -/
def Report.IsOpenAtEnd (r : Report) : Prop :=
  r.code = ScriptFault.openIfAtEndOfScript.code ∧
    r.message = ScriptFault.openIfAtEndOfScript.message

instance (r : Report) : Decidable r.IsOpenAtEnd := inferInstanceAs (Decidable (_ ∧ _))

/-- Lines below a place do not change the line that is quoted for it. -/
theorem Source.line?_append {name : String} {lines more : List String} {span : Span}
    (h : span.UpTo lines.length) :
    (Source.mk name (lines ++ more)).line? span.line.toNat =
      (Source.mk name lines).line? span.line.toNat := by
  obtain ⟨k, -, hk, hline⟩ := h
  have hle : span.line.toNat ≤ lines.length := by
    rw [hline, UInt32.toNat_ofNat']
    exact (Nat.mod_le k _).trans hk
  rw [line?, line?]
  split
  · rfl
  · next hpos => rw [List.getElem?_append_left (by omega)]

/-! ## Scripts -/

namespace Graph

/-- Lines that cannot be read are answered with the same report whatever lines come below them. -/
theorem ofSource_append {name : String} {lines more : List String} {e : PlacedFault}
    (h : Draft.start.readLines 1 lines = .error e) :
    ofSource ⟨name, lines ++ more⟩ = ofSource ⟨name, lines⟩ := by
  obtain ⟨fault, span⟩ := e
  have hplace := (Draft.openedUpTo_start 0).readLines lines
  rw [h, Nat.zero_add] at hplace
  rw [ofSource, ofSource, Draft.readLines_append_of_error h, h]
  simp only [Report.ofFault, Source.line?_append hplace]

/-- A source fails at one of its lines, or because a branch is open at its end. -/
theorem readLines_eq_error_of_ofSource {s : Source} {r : Report} (h : ofSource s = .error r)
    (hend : ¬ r.IsOpenAtEnd) : ∃ e, Draft.start.readLines 1 s.lines = .error e := by
  rw [ofSource] at h
  split at h
  · next fault span heq => exact ⟨_, heq⟩
  · split at h
    · next fault span hfinish =>
      cases h
      cases Draft.fault_of_finish hfinish
      exact absurd ⟨rfl, rfl⟩ hend
    · cases h

/-- **Reading stops at the first fault.** A script that cannot be read is answered with the same
report however it is continued below, unless the report says that a branch is open at its end. -/
theorem ofText_continued {name script : String} {r : Report} (h : ofText name script = .error r)
    (hend : ¬ r.IsOpenAtEnd) (more : String) : ofText name (script ++ "\n" ++ more) = .error r := by
  obtain ⟨e, hread⟩ := readLines_eq_error_of_ofSource h hend
  obtain ⟨lines, hjoined, hscript⟩ :=
    Text.exists_splitLines_lineFeed script.toList more.toList
  have htext : (script ++ "\n" ++ more).toList = script.toList ++ '\n' :: more.toList := by
    rw [String.toList_append, String.toList_append, List.append_assoc]
    rfl
  have hlines : (Source.ofText name (script ++ "\n" ++ more)).lines =
      lines.map String.ofList ++ (Source.ofText name more).lines := by
    simp only [Source.ofText, htext, hjoined, List.map_append]
  -- The lines above the line feed that are left in the continued script fail like those of the
  -- script.
  have hkept : Draft.start.readLines 1 (lines.map String.ofList) = .error e ∧
      ofSource ⟨name, lines.map String.ofList⟩ = .error r := by
    rcases hscript with hscript | hscript
    · have hsame : Source.ofText name script = ⟨name, lines.map String.ofList⟩ := by
        rw [Source.ofText, hscript]
      rw [hsame] at hread
      rw [ofText, hsame] at h
      exact ⟨hread, h⟩
    · have hsame : Source.ofText name script = ⟨name, lines.map String.ofList ++ [""]⟩ := by
        rw [Source.ofText, hscript, List.map_append]
        rfl
      rw [hsame] at hread
      have hfault := Draft.readLines_of_append_blank (by decide) hread
      rw [ofText, hsame, ofSource_append hfault] at h
      exact ⟨hfault, h⟩
  have hcontinued : Source.ofText name (script ++ "\n" ++ more) =
      ⟨name, lines.map String.ofList ++ (Source.ofText name more).lines⟩ := by
    rw [← hlines]
    rfl
  rw [ofText, hcontinued, ofSource_append hkept.1]
  exact hkept.2

/-- The report of a check is that of the reader. -/
theorem ofText_eq_error_of_report {name text : String} {r : Report}
    (h : (Check.ofText name text).report = some r) : ofText name text = .error r := by
  rw [Check.ofText] at h
  split at h
  · cases h
  · next hr =>
    cases h
    exact hr

/-- A script whose first entry has a condition that is not closed. -/
def vaultScript : String := "title: Vault\n---\nHalt!\n-> Enter [if key\n<<endif\r"

/-- The report of the open condition. -/
def vaultReport : Report :=
  .ofCode "vault" ⟨200⟩ "[if] tag is missing its closing ']'" (.point 4 10) "-> Enter [if key" none

theorem ofText_continued_vaultScript :
    ofText "vault" vaultScript = .error vaultReport ∧ ¬ vaultReport.IsOpenAtEnd ∧
      ofText "vault" (vaultScript ++ "\n" ++ "title:\n===") = .error vaultReport := by
  have hvault : ofText "vault" vaultScript = .error vaultReport :=
    ofText_eq_error_of_report (by decide +kernel)
  have hend : ¬ vaultReport.IsOpenAtEnd := by decide +kernel
  exact ⟨hvault, hend, ofText_continued hvault hend "title:\n==="⟩

end Graph

end Dialogue
