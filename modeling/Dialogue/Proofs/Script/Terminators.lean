import Dialogue.Proofs.Text.LineEnds
import Dialogue.Script.Draft

/-!
# Scripts with endings of all kinds

A script is read by its lines, so it does not matter how its lines end. Lines of a script may be
joined by line feeds, by carriage returns, or by both together, each of them in its own way: where
no two endings clash the source has these very lines, and the script is read as if a line feed stood
at the end of each (`Graph.ofText_joinLines`).
-/

namespace Dialogue

open Text

/-! ## Sources -/

namespace Source

/-- The text of a source is the text that it was made of, with newlines unified. -/
theorem toList_text_ofText (name text : String) :
    (ofText name text).text.toList = unifyNewlines text.toList := by
  rw [Source.text, String.toList_intercalate, ofText, List.map_map, unifyNewlines_eq_intercalate]
  congr 1
  exact List.map_id'' (fun line => String.toList_ofList) _

/-- A text that is written with endings of any kind has the lines that were joined, exactly if no
two endings clash. -/
theorem lines_ofText_joinLines_iff {first : List Char} {more : List (LineEnd × List Char)}
    (hfirst : OneLine first) (hmore : ∀ b ∈ more, OneLine b.2) (name : String) :
    (ofText name (String.ofList (joinLines first more))).lines =
        (first :: more.map Prod.snd).map String.ofList ↔ Apart more := by
  rw [← splitLines_joinLines_iff hfirst hmore, ofText, String.toList_ofList]
  refine ⟨fun h => ?_, fun h => congrArg _ h⟩
  exact (List.map_injective_iff.mpr fun a b hab => String.ofList_injective hab) h

end Source

/-! ## Scripts -/

/-- **Endings of lines are interchangeable.** Lines without line endings in them, joined by endings
of any kind, are the lines of the source exactly if no carriage return alone comes in front of an
empty line that ends with a line feed. Then the text of the source is these lines with line feeds
between them, without a carriage return, and reading gives the same for all choices of endings: the
same graph with the same spans, or the same report. -/
theorem Graph.ofText_joinLines {first : List Char} {more : List (LineEnd × List Char)}
    (hfirst : OneLine first) (hmore : ∀ b ∈ more, OneLine b.2) (name : String) :
    let lines := (first :: more.map Prod.snd).map String.ofList
    let source := Source.ofText name (String.ofList (joinLines first more))
    (source.lines = lines ↔ Apart more) ∧
      (Apart more →
        source.text = "\n".intercalate lines ∧ '\r' ∉ source.text.toList ∧
          source.text.toList = unifyNewlines (joinLines first more) ∧
          ∀ more', more'.map Prod.snd = more.map Prod.snd → Apart more' →
            ofText name (String.ofList (joinLines first more')) =
              ofText name (String.ofList (joinLines first more))) := by
  intro lines source
  have hlines : source.lines = lines ↔ Apart more :=
    Source.lines_ofText_joinLines_iff hfirst hmore name
  have htext := Source.toList_text_ofText name (String.ofList (joinLines first more))
  rw [String.toList_ofList] at htext
  refine ⟨hlines, fun hapart => ⟨?_, ?_, htext, fun more' hsame hapart' => ?_⟩⟩
  · rw [Source.text, hlines.mpr hapart]
  · rw [htext]
    exact not_mem_unifyNewlines _
  · have hmore' : ∀ b ∈ more', OneLine b.2 := by
      intro b hb
      obtain ⟨c, hc, hcb⟩ := List.mem_map.mp (hsame ▸ List.mem_map_of_mem (f := Prod.snd) hb)
      exact hcb ▸ hmore c hc
    have hlines' : (Source.ofText name (String.ofList (joinLines first more'))).lines =
        source.lines := by
      rw [(Source.lines_ofText_joinLines_iff hfirst hmore' name).mpr hapart', hsame]
      exact (hlines.mpr hapart).symm
    exact congrArg (fun lines => ofSource ⟨name, lines⟩) hlines'

/-- The lines of a script below its title, each behind the ending of the one before: endings of all
kinds, among them a carriage return in front of an empty line. -/
def mixedLines : List (LineEnd × List Char) :=
  [(.both, "---".toList), (.carriageReturn, "Hello".toList), (.carriageReturn, []),
    (.both, "===".toList)]

/-- The same lines behind line feeds. -/
def plainLines : List (LineEnd × List Char) := mixedLines.map fun b => (.lineFeed, b.2)

theorem Graph.ofText_joinLines_mixedLines :
    Apart mixedLines ∧ Apart plainLines ∧
      (Source.ofText "inn" "title: A\r\n---\rHello\r\r\n===").lines =
        ["title: A", "---", "Hello", "", "==="] ∧
      (Source.ofText "inn" "title: A\r\n---\rHello\r\r\n===").text =
        "title: A\n---\nHello\n\n===" ∧
      ofText "inn" "title: A\n---\nHello\n\n===" =
        ofText "inn" "title: A\r\n---\rHello\r\r\n===" := by
  have hmixed : Apart mixedLines := by decide
  have hplain : Apart plainLines := by decide
  have hfirst : OneLine "title: A".toList := by decide
  have hmore : ∀ b ∈ mixedLines, OneLine b.2 := by decide
  obtain ⟨hlines, hjoined⟩ := ofText_joinLines hfirst hmore "inn"
  obtain ⟨htext, -, -, hsame⟩ := hjoined hmixed
  have hread := hsame plainLines (by rfl) hplain
  have hmixedText : String.ofList (joinLines "title: A".toList mixedLines) =
      "title: A\r\n---\rHello\r\r\n===" := by decide
  have hplainText : String.ofList (joinLines "title: A".toList plainLines) =
      "title: A\n---\nHello\n\n===" := by decide
  rw [hmixedText] at hlines htext hread
  rw [hplainText] at hread
  refine ⟨hmixed, hplain, ?_, ?_, hread⟩
  · rw [hlines.mpr hmixed]
    decide
  · rw [htext]
    decide

end Dialogue
