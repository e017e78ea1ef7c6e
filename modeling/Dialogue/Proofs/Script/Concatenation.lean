import Dialogue.Proofs.Script.FaultPlace
import Dialogue.Proofs.Script.Moved
import Dialogue.Proofs.Script.Taking
import Dialogue.Script.Check

/-!
# Scripts put together

A script may be continued by another one that starts with a title. What has been read before a title
does not matter for what is read from there on, but for the nodes that it has left: a title closes
all that the end of a script would close (`readLine_of_title`). So the second script is read as it
is read on its own, only further down, and the graph of the first one is overwritten by its graph
(`ofLines_append`, and `ofText_append` for texts).
-/

namespace Dialogue

/-! ## Title lines -/

theorem arrow?_of_title {line name : List Char} (h : titleName? (Text.trim line) = some name) :
    arrow? line = none := by
  apply arrow?_eq_none
  rintro ⟨rest, hrest⟩
  have htext : IsStepText ('-' :: '>' :: rest) :=
    .of_head (by decide) (by decide) (.inr (by decide))
  rw [← hrest] at h
  cases htext.title.symm.trans h

theorem commandBody?_of_title {line name : List Char}
    (h : titleName? (Text.trim line) = some name) : commandBody? line = none := by
  unfold commandBody?
  split
  · next cs hopen =>
    have htext : IsStepText ('<' :: '<' :: cs) :=
      .of_head (by decide) (by decide) (.inl (by decide))
    rw [hopen, htext.title] at h
    cases h
  · rfl

namespace Draft

/-- An open choice takes no line that is neither an entry nor a command. -/
theorem readInChoice_eq_none {line : List Char} (harrow : arrow? line = none)
    (hbody : commandBody? line = none) (b : BodyDraft) (c : ChoiceDraft) (number : Nat) :
    b.readInChoice c number line = .ok none := by
  have hoption : BodyDraft.optionCommand? line = none := by
    rw [BodyDraft.optionCommand?, hbody]
    split <;> rfl
  rw [BodyDraft.readInChoice, harrow]
  simp only [hoption]

/-- A line that is neither an entry nor a command closes an open choice. -/
theorem readLine_eq_readSettled {line : List Char} (harrow : arrow? line = none)
    (hbody : commandBody? line = none) (d : Draft) (number : Nat) :
    d.readLine number line = d.settle.readSettled number line := by
  obtain ⟨g, place⟩ := d
  cases place with
  | outside => rfl
  | header name span => rfl
  | body b =>
    cases hc : b.choice with
    | none => simp only [readLine, settle, BodyDraft.settle, hc]
    | some c => simp only [readLine, hc, readInChoice_eq_none harrow hbody]

theorem readLine_eq_readTitle {line name : List Char}
    (h : titleName? (Text.trim line) = some name) (d : Draft) (number : Nat) :
    d.readLine number line = d.settle.readTitle number line name := by
  rw [readLine_eq_readSettled (arrow?_of_title h) (commandBody?_of_title h), readSettled, h]

theorem start_movedOnto (n : Nat) (g : Graph) : start.movedOnto n g = ⟨g, .outside⟩ := rfl

/-- A node that is closed leaves the place outside; whether it can be closed does not depend on the
fault that it would be. -/
theorem closeNode_eq_ok {d closed : Draft} {fault : ScriptFault}
    (h : d.closeNode fault = .ok closed) (fault' : ScriptFault) :
    d.closeNode fault' = .ok ⟨closed.graph, .outside⟩ := by
  obtain ⟨graph, place⟩ := d
  cases place with
  | outside =>
    cases h
    rfl
  | header name span =>
    cases h
    rfl
  | body b =>
    simp only [closeNode] at h ⊢
    split at h
    · cases h
      rfl
    · cases h

theorem closeNode_of_finish {d : Draft} {g : Graph} (h : d.finish = .ok g) (fault : ScriptFault) :
    d.settle.closeNode fault = .ok ⟨g, .outside⟩ := by
  obtain ⟨closed, hclosed, rfl⟩ := Outcome.map_eq_ok_iff.1 h
  exact closeNode_eq_ok hclosed fault

/-- **Behind a title nothing is left of what was open before it.** -/
theorem readLine_of_title {d : Draft} {g : Graph} {line name : List Char}
    (hfinish : d.finish = .ok g) (h : titleName? (Text.trim line) = some name) (number : Nat) :
    d.readLine number line = (⟨g, .outside⟩ : Draft).readLine number line := by
  rw [readLine_eq_readTitle h, readLine_eq_readTitle h, readTitle, readTitle,
    closeNode_of_finish hfinish]
  rfl

theorem readLines_append (d : Draft) (number : Nat) (lines more : List String) :
    d.readLines number (lines ++ more) =
      match d.readLines number lines with
      | .error e => .error e
      | .ok d => d.readLines (number + lines.length) more := by
  induction lines generalizing d number with
  | nil => rfl
  | cons line rest ih =>
    rw [List.cons_append, readLines, readLines]
    cases d.readLine number line.toList with
    | error e => rfl
    | ok next =>
      simp only
      rw [ih, List.length_cons, Nat.add_comm rest.length, Nat.add_assoc]

end Draft

/-! ## Scripts -/

/-- The first line is a title line. -/
def StartsWithTitle (lines : List String) : Prop :=
  ∃ line ∈ lines.head?, (titleName? (Text.trim line.toList)).isSome

namespace Graph

variable {g : Graph}

/-- **The lines of a script behind those of another one are read as they are read on their own.** -/
theorem ofLines_append {lines more : List String} (h : ofLines lines = .ok g)
    (htitle : StartsWithTitle more) :
    ofLines (lines ++ more) =
      Outcome.moveDown lines.length (fun g' => g.overwrite (g'.mapSpans (.moveDown lines.length)))
        (ofLines more) := by
  obtain ⟨line, hline, hname⟩ := htitle
  obtain ⟨name, hname⟩ := Option.isSome_iff_exists.1 hname
  obtain ⟨rest, rfl⟩ := List.head?_eq_some_iff.1 hline
  rw [ofLines] at h
  split at h
  · cases h
  · next d hread =>
    -- The title finds the draft as if the first script had ended: that is the start, moved onto
    -- `g`.
    have hmore : d.readLines (1 + lines.length) (line :: rest) =
        (Draft.start.movedOnto lines.length g).readLines (lines.length + 1) (line :: rest) := by
      rw [Draft.start_movedOnto, Draft.readLines, Draft.readLines, Draft.readLine_of_title h hname,
        Nat.add_comm 1]
    rw [ofLines, ofLines, Draft.readLines_append, hread]
    simp only [hmore, Draft.readLines_movedOnto]
    cases Draft.start.readLines 1 (line :: rest) with
    | error e => rfl
    | ok d' => exact Draft.finish_movedOnto _ _ d'

end Graph

/-! ## Reports -/

/-- The line that a fault is shown at is found again, as long as lines can be told by their numbers
in spans. -/
theorem Source.line?_moveDown {name : String} {lines more : List String} {span : Span}
    (h : span.UpTo more.length) (hsize : lines.length + more.length < UInt32.size) :
    (Source.mk name (lines ++ more)).line? (span.moveDown lines.length).line.toNat =
      (Source.mk name more).line? span.line.toNat := by
  obtain ⟨k, hpos, hk, hline⟩ := h
  have hnumber : span.line.toNat = k := by
    rw [hline, UInt32.toNat_ofNat_of_lt' (by omega)]
  have hmoved : (span.moveDown lines.length).line.toNat = lines.length + k := by
    rw [Span.moveDown, hline, ← UInt32.ofNat_add, UInt32.toNat_ofNat_of_lt' (by omega)]
  rw [hnumber, hmoved, line?, line?, if_neg (by omega), if_neg (by omega),
    List.getElem?_append_right (by omega)]
  congr 1
  omega

theorem Source.ofText_joined {first : String} (h : '\r' ∉ first.toList) (name second : String) :
    ofText name (first ++ "\n" ++ second) =
      ⟨name, (ofText name first).lines ++ (ofText name second).lines⟩ := by
  have htext : (first ++ "\n" ++ second).toList = first.toList ++ '\n' :: second.toList := by
    rw [String.toList_append, String.toList_append, List.append_assoc]
    rfl
  simp only [ofText, htext, Text.splitLines_append h, List.map_append]

/-- **Two scripts with a line feed between them, the second one starting with a title.** If the
first one can be read, the second one is read as on its own. Its graph goes over that of the first,
and all its places, those of its fault too, are further down by the lines of the first; nothing else
changes in the report of the fault. The line that the report quotes is looked up by the number in
the span, which has 32 bits, so in a script of more lines than that it may be another one. -/
theorem Graph.ofText_append {name first second : String} {g : Graph}
    (hfirst : ofText name first = .ok g) (hreturn : '\r' ∉ first.toList)
    (htitle : StartsWithTitle (Source.ofText name second).lines) :
    let n := (Source.ofText name first).lines.length
    (∀ g', ofText name second = .ok g' →
        ofText name (first ++ "\n" ++ second) = .ok (g.overwrite (g'.mapSpans (.moveDown n)))) ∧
      ∀ r, ofText name second = .error r →
        ∃ quoted, ofText name (first ++ "\n" ++ second) =
            .error { r with span := r.span.moveDown n, sourceLine := quoted } ∧
          (n + (Source.ofText name second).lines.length < UInt32.size → quoted = r.sourceLine) := by
  intro n
  have hplace := upTo_ofLines (Source.ofText name second).lines
  rw [ofText, ofSource_eq_ofLines] at hfirst
  simp only [ofText, ofSource_eq_ofLines, Source.ofText_joined hreturn]
  split at hfirst
  · cases hfirst
  · next hread =>
    cases hfirst
    rw [ofLines_append hread htitle]
    cases hmore : ofLines (Source.ofText name second).lines with
    | ok g' =>
      constructor
      · intro _ h
        cases h
        rfl
      · intro _ h
        cases h
    | error placed =>
      obtain ⟨e, span⟩ := placed
      rw [hmore] at hplace
      constructor
      · intro _ h
        cases h
      · intro _ h
        cases h
        refine ⟨_, rfl, ?_⟩
        intro hsize
        exact congrArg (·.getD "") (Source.line?_moveDown hplace hsize)

/-- A script that leaves its node and a choice open. -/
def innScript : String := "title: Inn\n---\nWelcome!\n-> Stay\n    <<jump Room>>"

/-- A script that gives the same node anew. -/
def lateInnScript : String := "title: INN\n---\n<<if late>>\nClosed.\n<<endif>>\n==="

/-- A script with a branch that is not closed. -/
def cellarScript : String := "Title: Cellar\n---\n<<if dark>>\nWho is there?"

/-- The report of the open branch, if it is at the line of the number. -/
def cellarReport (line : UInt32) : Report :=
  .ofCode "inn" ⟨101⟩ "<<if>> block reached end of script without <<endif>>" ⟨line, 1, 11⟩
    "<<if dark>>" (some "close the block with <<endif>>")

theorem Graph.ofText_append_innScript :
    ∃ g g', ofText "inn" innScript = .ok g ∧ ofText "inn" lateInnScript = .ok g' ∧
      '\r' ∉ innScript.toList ∧
      ofText "inn" (innScript ++ "\n" ++ lateInnScript) =
        .ok (g.overwrite (g'.mapSpans (.moveDown 5))) ∧
      ofText "inn" cellarScript = .error (cellarReport 3) ∧
      ofText "inn" (innScript ++ "\n" ++ cellarScript) = .error (cellarReport 8) := by
  have hread : ∀ s ∈ [innScript, lateInnScript], (ofText "inn" s).isOk := by decide +kernel
  have hinn := hread innScript List.mem_cons_self
  have hlate := hread lateInnScript (List.mem_cons_of_mem _ List.mem_cons_self)
  have hlength : (Source.ofText "inn" innScript).lines.length = 5 := by decide +kernel
  have hreturn : '\r' ∉ innScript.toList := by decide +kernel
  have hlateTitle : StartsWithTitle (Source.ofText "inn" lateInnScript).lines :=
    ⟨"title: INN", by decide +kernel, by decide +kernel⟩
  have hcellarTitle : StartsWithTitle (Source.ofText "inn" cellarScript).lines :=
    ⟨"Title: Cellar", by decide +kernel, by decide +kernel⟩
  have hcellar : ofText "inn" cellarScript = .error (cellarReport 3) := by
    have hcheck : (Check.ofText "inn" cellarScript).report = some (cellarReport 3) := by
      decide +kernel
    rw [Check.ofText] at hcheck
    split at hcheck
    · cases hcheck
    · next hr =>
      cases hcheck
      exact hr
  cases hg : ofText "inn" innScript with
  | error r =>
    rw [hg] at hinn
    cases hinn
  | ok g =>
    cases hg' : ofText "inn" lateInnScript with
    | error r =>
      rw [hg'] at hlate
      cases hlate
    | ok g' =>
      have hjoined := ofText_append hg hreturn hlateTitle
      have hfailed := ofText_append hg hreturn hcellarTitle
      rw [hlength] at hjoined hfailed
      obtain ⟨quoted, hreport, hquoted⟩ := hfailed.2 _ hcellar
      refine ⟨g, g', rfl, rfl, hreturn, hjoined.1 g' hg', hcellar, ?_⟩
      rw [hreport, hquoted (by decide +kernel)]
      rfl

end Dialogue
