import Dialogue.Proofs.Script.ChoiceText
import Dialogue.Proofs.Script.CommandText
import Dialogue.Proofs.Outcome

/-!
# Taking in single lines

What one written line does to a draft. `Takes d number lines d'` says that the draft `d` takes in
the lines and is `d'` then. Each kind of line has one lemma here; a whole script is taken in by
putting them in a row.

A line inside of a node is told apart in two steps. It must not look like a title, a fence or a
close (`IsStepText`), and then an arrow, brackets or neither make it an entry, a command line or a
line of dialogue.
-/

namespace Dialogue

/-! ## Several lines -/

/-- The draft `d` takes in the lines, the first of them with the given number, and is `d'` then. -/
def Draft.Takes (d : Draft) (number : Nat) (lines : List (List Char)) (d' : Draft) : Prop :=
  d.readLines number (lines.map String.ofList) = .ok d'

namespace Draft.Takes

variable {d d' d'' : Draft} {number : Nat} {line : List Char} {lines more : List (List Char)}

theorem nil (d : Draft) (number : Nat) : d.Takes number [] d := rfl

theorem cons (h : d.readLine number line = .ok d') (h' : d'.Takes (number + 1) lines d'') :
    d.Takes number (line :: lines) d'' := by
  rw [Takes, List.map_cons, Draft.readLines, String.toList_ofList, h]
  exact h'

theorem single (h : d.readLine number line = .ok d') : d.Takes number [line] d' := cons h (nil _ _)

theorem append (h : d.Takes number lines d') (h' : d'.Takes (number + lines.length) more d'') :
    d.Takes number (lines ++ more) d'' := by
  induction lines generalizing d number with
  | nil =>
    cases h
    exact h'
  | cons line lines ih =>
    rw [Takes, List.map_cons, Draft.readLines, String.toList_ofList] at h
    split at h
    · cases h
    · next next hread =>
      refine cons hread (ih h ?_)
      rwa [List.length_cons, Nat.add_comm lines.length, ← Nat.add_assoc] at h'

end Draft.Takes

/-! ## Lines inside of a node -/

/-- A trimmed line that frames no node. -/
structure IsStepText (trimmed : List Char) : Prop where
  title : titleName? trimmed = none
  close : isClose trimmed = false
  fence : isFence trimmed = false
  ne_nil : trimmed ≠ []

theorem IsStepText.of_head {c d : Char} {cs : List Char} (htitle : c.toLower ≠ 't')
    (hclose : c ≠ '=') (hfence : c ≠ '-' ∨ d ≠ '-') : IsStepText (c :: d :: cs) where
  title := by
    have hword : Text.sameIgnoringCase (c :: d :: cs.take 4) ['t', 'i', 't', 'l', 'e', ':'] =
        false := sameIgnoringCase_cons_eq_false htitle
    simpa [titleName?] using hword
  close := by simp [isClose, hclose]
  fence := by
    rcases hfence with h | h <;> simp [isFence, h]
  ne_nil := List.cons_ne_nil _ _

theorem isStepText_commandLine (body : List Char) : IsStepText (commandLine body) :=
  .of_head (by decide) (by decide) (.inl (by decide))

theorem arrow?_eq_none {line : List Char} (h : ¬ "->".toList <+: Text.trim line) :
    arrow? line = none := by
  unfold arrow?
  split
  · next rest hstart =>
    -- An arrow at the start of a line is no blank, so trimming at the end leaves it there.
    have htrim : Text.trim line = '-' :: '>' :: Text.trimEnd rest := by
      rw [Text.trim, Text.trimStart, hstart, Text.trimEnd_cons (by decide),
        Text.trimEnd_cons (by decide)]
    exact absurd ⟨Text.trimEnd rest, htrim.symm⟩ h
  · rfl

theorem arrow?_of_trim {line body : List Char} (h : Text.trim line = commandLine body) :
    arrow? line = none := by
  apply arrow?_eq_none
  simp [h, commandLine]

namespace BodyDraft

variable {g : Graph} {b : BodyDraft} (number : Nat) {line body : List Char}

/-- Without an open choice a line inside of a node is a step of its body. -/
theorem readLine_step (hchoice : b.choice = none) (h : IsStepText (Text.trim line)) :
    (⟨g, .body b⟩ : Draft).readLine number line =
      (b.readStep number line).map fun b => ⟨g, .body b⟩ := by
  simp [Draft.readLine, hchoice, Draft.readSettled, h.title, h.close, h.fence, h.ne_nil]

/-! ### Command lines -/

theorem readLine_commandLine (hchoice : b.choice = none) :
    (⟨g, .body b⟩ : Draft).readLine number (commandLine body) =
      (b.readCommandLine number (commandLine body) (Text.trim body)).map fun b => ⟨g, .body b⟩ := by
  have htrim := (trimmed_commandLine body).eq
  have hstep : IsStepText (Text.trim (commandLine body)) := by
    rw [htrim]
    exact isStepText_commandLine body
  rw [readLine_step number hchoice hstep, readStep, arrow?_of_trim htrim,
    commandBody?_of_trim htrim]

theorem readLine_command {numeral : Float → List Char} {c : Command} (hchoice : b.choice = none)
    (h : c.Printable numeral) :
    (⟨g, .body b⟩ : Draft).readLine number (commandLine (c.render numeral)) =
      .ok ⟨g, .body (b.push (.command c (lineSpan number (commandLine (c.render numeral)))))⟩ := by
  rw [readLine_commandLine number hchoice, (Command.trimmed_render h).eq, readCommandLine,
    readPlainCommand, Command.isElse_render, Command.isEndif_render, Command.ifCondition?_render,
    Command.ofText_render h]
  cases b.branches <;> rfl

theorem readLine_opener {condition : List Char} (hchoice : b.choice = none)
    (h : Text.Trimmed condition) :
    (⟨g, .body b⟩ : Draft).readLine number (commandLine ("if ".toList ++ condition)) =
      .ok ⟨g, .body (b.openBranch condition
        (lineSpan number (commandLine ("if ".toList ++ condition))))⟩ := by
  rw [readLine_commandLine number hchoice, readCommandLine, readPlainCommand, isElse_opener,
    isEndif_opener, ifCondition?_opener h]
  cases b.branches <;> rfl

theorem readLine_else {top : BranchDraft} {outer : List BranchDraft} (hchoice : b.choice = none)
    (h : b.branches = top :: outer) :
    (⟨g, .body b⟩ : Draft).readLine number (commandLine "else".toList) =
      .ok ⟨g, .body { b with branches := { top with inElse := true } :: outer }⟩ := by
  rw [readLine_commandLine number hchoice, readCommandLine, h]
  rfl

theorem readLine_endif {top : BranchDraft} {outer : List BranchDraft} (hchoice : b.choice = none)
    (h : b.branches = top :: outer) :
    (⟨g, .body b⟩ : Draft).readLine number (commandLine "endif".toList) =
      .ok ⟨g, .body ({ b with branches := outer }.push top.close)⟩ := by
  rw [readLine_commandLine number hchoice, readCommandLine, h]
  rfl

/-! ### Lines of dialogue -/

theorem isStepText_of_spoken {text : List Char} (h : Text.Spoken text) :
    IsStepText (Text.trim text) where
  title := by
    rw [titleName?, if_neg]
    simpa using h.notTitle
  close := by simpa [isClose] using h.notClose
  fence := by simpa [isFence] using h.notFence
  ne_nil := h.notBlank

theorem commandBody?_of_spoken {text : List Char} (h : Text.Spoken text) :
    commandBody? text = none := by
  unfold commandBody?
  split
  · next cs hopen =>
    split
    · next body hclose =>
      -- The reader has found both pairs of brackets, which a line of dialogue may not have.
      have hcs : cs = body.reverse ++ ['>', '>'] := by
        rw [← List.reverse_reverse cs, hclose]
        simp
      refine absurd ⟨⟨cs, hopen.symm⟩, ⟨'<' :: '<' :: body.reverse, ?_⟩⟩ h.notCommand
      rw [hopen, hcs]
      rfl
    · rfl
  · rfl

theorem readLine_spoken {text : List Char} (hchoice : b.choice = none) (h : Text.Spoken text) :
    (⟨g, .body b⟩ : Draft).readLine number text =
      .ok ⟨g, .body (b.push (.line (String.ofList text) (lineSpan number text)))⟩ := by
  rw [readLine_step number hchoice (isStepText_of_spoken h), readStep, arrow?_eq_none h.notArrow,
    commandBody?_of_spoken h, h.noTrailingBlank]
  rfl

end BodyDraft

/-! ## Lines of choices -/

variable {numeral : Float → List Char}

/-- What stands behind the arrow of an entry under the time limit of its choice. -/
def Entry.behindArrow (numeral : Float → List Char) (timeLimit : Option Float) (e : Entry) :
    List Char :=
  ' ' :: e.text.toList ++ Tag.condition.spaced? (e.condition.map String.toList) ++
    Tag.time.spaced? (timeLimit.map numeral)

theorem Entry.render_eq (timeLimit : Option Float) (e : Entry) :
    e.render numeral timeLimit =
      ('-' :: '>' :: e.behindArrow numeral timeLimit) ::
        e.commands.map fun c => List.replicate 4 ' ' ++ commandLine (c.render numeral) := by
  have hif := Tag.condition.tagText_keyword
  have htime := Tag.time.tagText_keyword
  simp only [Tag.keyword] at hif htime
  simp [Entry.render, Entry.behindArrow, Tag.spaced?, hif, htime, Option.map_map, Function.comp_def]

theorem arrow?_arrow (rest : List Char) : arrow? ('-' :: '>' :: rest) = some ([], rest) := by
  have hblank : Text.isBlank '-' = false := by decide
  simp [arrow?, hblank]

theorem isStepText_arrow (rest : List Char) : IsStepText (Text.trim ('-' :: '>' :: rest)) := by
  rw [Text.trim_cons (by decide), Text.trimEnd_cons (by decide)]
  exact .of_head (by decide) (by decide) (.inr (by decide))

/-- The draft of a choice with one more entry, under the time limit at its line. -/
def ChoiceDraft.withEntry (c : ChoiceDraft) (timeLimit : Option Float) (e : Entry) : ChoiceDraft :=
  { c with entries := e :: c.entries, timeLimit := shorter c.timeLimit timeLimit }

namespace BodyDraft

variable {g : Graph} {b : BodyDraft} {c : ChoiceDraft} {timeLimit : Option Float} {e : Entry}

theorem readEntry_behindArrow (h : e.Printable numeral)
    (htime : ∀ t ∈ timeLimit, Denotes (numeral t) t ∧ 0 ≤ t) (number : Nat) (before : List Char) :
    readEntry number before (e.behindArrow numeral timeLimit) =
      .ok ⟨e.text.toList, e.condition.map String.toList, timeLimit⟩ := by
  have hcondition : ∀ c ∈ e.condition.map String.toList, Text.Unbracketed c ∧ c ≠ [] := by
    intro c hc
    obtain ⟨condition, hmem, rfl⟩ := Option.map_eq_some_iff.1 hc
    exact h.condition condition hmem
  rw [readEntry, Entry.behindArrow, EntryText.ofText_spaced? h.label hcondition htime]

theorem addEntry_eq (c : ChoiceDraft) (timeLimit : Option Float) (e : Entry) (span : Span) :
    c.addEntry ⟨e.text.toList, e.condition.map String.toList, timeLimit⟩ span =
      c.withEntry timeLimit { e with commands := [], span := span } := by
  have hcondition : (e.condition.map String.toList).map String.ofList = e.condition := by
    simp [Option.map_map, Function.comp_def]
  simp [ChoiceDraft.addEntry, ChoiceDraft.withEntry, hcondition]

/-- The first entry opens a choice. -/
theorem readLine_entry (hchoice : b.choice = none) (h : e.Printable numeral)
    (htime : ∀ t ∈ timeLimit, Denotes (numeral t) t ∧ 0 ≤ t) (number : Nat) :
    ∃ span, (⟨g, .body b⟩ : Draft).readLine number ('-' :: '>' :: e.behindArrow numeral timeLimit) =
      .ok ⟨g, .body { b with
        choice := some (ChoiceDraft.withEntry ⟨span, [], none⟩ timeLimit
          { e with commands := [], span := span }) }⟩ := by
  refine ⟨lineSpan number ('-' :: '>' :: e.behindArrow numeral timeLimit), ?_⟩
  rw [readLine_step number hchoice (isStepText_arrow _), readStep, arrow?_arrow]
  simp only [readEntry_behindArrow h htime, Outcome.map_ok, addEntry_eq]

/-- Another entry joins an open choice. -/
theorem readLine_nextEntry (hchoice : b.choice = some c) (h : e.Printable numeral)
    (htime : ∀ t ∈ timeLimit, Denotes (numeral t) t ∧ 0 ≤ t) (number : Nat) :
    ∃ span, (⟨g, .body b⟩ : Draft).readLine number ('-' :: '>' :: e.behindArrow numeral timeLimit) =
      .ok ⟨g, .body { b with
        choice := some (c.withEntry timeLimit { e with commands := [], span := span }) }⟩ := by
  refine ⟨lineSpan number ('-' :: '>' :: e.behindArrow numeral timeLimit), ?_⟩
  simp only [Draft.readLine, hchoice, readInChoice, arrow?_arrow, readEntry_behindArrow h htime,
    Outcome.map_ok, addEntry_eq]

/-- A command under an entry joins the entry. -/
theorem readLine_optionCommand {command : Command} (hchoice : b.choice = some c)
    (h : command.Printable numeral) (number : Nat) :
    (⟨g, .body b⟩ : Draft).readLine number
        (List.replicate 4 ' ' ++ commandLine (command.render numeral)) =
      .ok ⟨g, .body { b with choice := some (c.addCommand command) }⟩ := by
  have hline : Text.trim (List.replicate 4 ' ' ++ commandLine (command.render numeral)) =
      commandLine (command.render numeral) := by
    rw [Text.trim_spaces_append]
    exact trimmed_commandLine _
  have hoption : optionCommand? (List.replicate 4 ' ' ++ commandLine (command.render numeral)) =
      some (command.render numeral) := by
    rw [optionCommand?, commandBody?_of_trim hline, (Command.trimmed_render h).eq]
    simp [isIndented, List.replicate, Command.isElse_render, Command.isEndif_render]
  simp only [Draft.readLine, hchoice, readInChoice, arrow?_of_trim hline, hoption,
    readOptionCommand, Command.ifCondition?_render, Command.ofText_render h, Option.isSome_none,
    Bool.false_eq_true, if_false, Outcome.map_ok]

/-- A blank line closes an open choice. -/
theorem readLine_blank (hchoice : b.choice = some c) (number : Nat) :
    (⟨g, .body b⟩ : Draft).readLine number [] =
      .ok ⟨g, .body ({ b with choice := none }.push c.close)⟩ := by
  have hsettle : b.settle = { b with choice := none }.push c.close := by rw [settle, hchoice]
  have hline : b.readInChoice c number [] = .ok none := rfl
  simp only [Draft.readLine, hchoice, hline, Draft.settle, hsettle]
  -- Behind the choice the line is blank in a body.
  rfl

end BodyDraft

/-! ## Frames of nodes -/

namespace Draft

variable {g : Graph}

theorem readLine_title {name : List Char} (h : Text.Trimmed name) (hne : name ≠ [])
    (number : Nat) :
    (⟨g, .outside⟩ : Draft).readLine number ("title: ".toList ++ name) =
      .ok ⟨g, .header (String.ofList name) (lineSpan number ("title: ".toList ++ name))⟩ := by
  have htrimmed : Text.Trimmed ('t' :: ['i', 't', 'l', 'e', ':', ' '] ++ name) :=
    h.append hne (by decide)
  have htrim : Text.trim ("title: ".toList ++ name) = "title: ".toList ++ name := htrimmed
  have htitle : titleName? ("title: ".toList ++ name) = some name := by
    simp [titleName?, h.trim_space_cons]
  simp only [readLine, readSettled, htrim, htitle, readTitle, closeNode, if_neg hne]

theorem readLine_fence (name : String) (span : Span) (number : Nat) :
    (⟨g, .header name span⟩ : Draft).readLine number "---".toList =
      .ok ⟨g, .body (.start name span)⟩ := rfl

theorem readLine_close {b : BodyDraft} (hchoice : b.choice = none) (h : b.branches = [])
    (number : Nat) :
    (⟨g, .body b⟩ : Draft).readLine number "===".toList = .ok ⟨g.insert b.toNode, .outside⟩ := by
  have hline : (⟨g, .body b⟩ : Draft).readLine number "===".toList =
      (⟨g, .body b⟩ : Draft).closeNode .openIfAtEndOfNode := by
    simp only [readLine, hchoice]
    rfl
  rw [hline, closeNode]
  simp only [h]

theorem readLine_blank_outside (number : Nat) :
    (⟨g, .outside⟩ : Draft).readLine number [] = .ok ⟨g, .outside⟩ := rfl

end Draft

end Dialogue
