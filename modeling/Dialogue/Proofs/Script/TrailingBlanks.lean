import Dialogue.Proofs.Outcome
import Dialogue.Proofs.Script.EntryBlanks
import Dialogue.Proofs.Script.FaultPlace
import Dialogue.Proofs.Script.FirstFault
import Dialogue.Proofs.Script.Moved
import Dialogue.Proofs.Text.LineEnds

/-!
# Blanks at the end of a line

Blanks at the end of a line say nothing: with them a script gives the same graph, but for the
columns where spans end, or the same fault, shown where it was (`Graph.ofText_insert_blanks`). There
is one exception, an entry that opens a tag at its end (`EntryText.OpensTag`), which a blank makes a
tag of.

Every kind of line handles its end in its own way, and what they have in common is put down in
`LinesAlike`. The reader never looks at a span, so drafts that are alike when their spans are
changed by `f` stay alike over lines that are alike (`Draft.readLine_alike`), and so over the lines
below (`Draft.readLines_alike`). That holds of any `f` that does not tell the spans of the two lines
apart; here it is `Span.atStart`, which forgets where a span ends.
-/

namespace Dialogue

/-! ## Lines -/

section Lines

variable {line bs : List Char}

theorem arrow?_cons_of_blank {c : Char} (hc : Text.isBlank c = true) (line : List Char) :
    arrow? (c :: line) = (arrow? line).map fun (before, rest) => (c :: before, rest) := by
  rw [arrow?, arrow?, List.dropWhile_cons_of_pos hc, List.takeWhile_cons_of_pos hc]
  split <;> rfl

/-- The text behind the arrow of a line goes on with the blanks behind the line. -/
theorem arrow?_append (hbs : ∀ c ∈ bs, Text.isBlank c = true) (line : List Char) :
    arrow? (line ++ bs) = (arrow? line).map fun (before, rest) => (before, rest ++ bs) := by
  induction line with
  | nil =>
    have hdrop : bs.dropWhile Text.isBlank = [] := List.dropWhile_eq_nil_iff.mpr hbs
    rw [List.nil_append, arrow?, hdrop]
    rfl
  | cons c line ih =>
    rw [List.cons_append]
    cases hc : Text.isBlank c with
    | true =>
      rw [arrow?_cons_of_blank hc, arrow?_cons_of_blank hc, ih, Option.map_map, Option.map_map]
      rfl
    | false =>
      have hblank : ¬ Text.isBlank c = true := by simp [hc]
      rw [arrow?, arrow?, List.dropWhile_cons_of_neg hblank, List.dropWhile_cons_of_neg hblank,
        List.takeWhile_cons_of_neg hblank, List.takeWhile_cons_of_neg hblank]
      cases line with
      | cons d rest =>
        rw [List.cons_append]
        split
        · next heq =>
          cases heq
          rfl
        · next hnot =>
          split
          · next heq =>
            cases heq
            exact absurd rfl (hnot _)
          · rfl
      | nil =>
        -- A dash alone does not become an arrow.
        split
        · next heq =>
          cases heq
          exact absurd (hbs '>' List.mem_cons_self) (by decide)
        · split
          · next heq => cases heq
          · rfl

theorem isIndented_iff : isIndented line = true ↔
    ['\t'] <+: line ∨ [' ', ' ', ' ', ' '] <+: line := by
  rw [isIndented.eq_def]
  split
  · simp
  · simp
  · next htab hspaces =>
    simp only [Bool.false_eq_true, false_iff, not_or]
    constructor
    · rintro ⟨rest, rfl⟩
      exact htab rest rfl
    · rintro ⟨rest, rfl⟩
      exact hspaces rest rfl

/-- Whether a line is indented is told by the blanks before its first character that is none. -/
theorem isIndented_append (h : Text.trim line ≠ []) (bs : List Char) :
    isIndented (line ++ bs) = isIndented line := by
  -- An indentation that ended behind the line would have no room for that character.
  have hindent : ∀ indent : List Char, indent.all Text.isBlank = true →
      (indent <+: line ++ bs ↔ indent <+: line) := by
    intro indent hblank
    refine ⟨fun hprefix => ?_, fun hprefix => hprefix.trans (List.prefix_append line bs)⟩
    rcases List.prefix_or_prefix_of_prefix hprefix (List.prefix_append line bs) with hin | hout
    · exact hin
    · have hnil : Text.trim ([] ++ line) = Text.trim [] :=
        Text.trim_append_of_blank fun c hc => List.all_eq_true.mp hblank c (hout.subset hc)
      exact absurd hnil h
  rw [Bool.eq_iff_iff, isIndented_iff, isIndented_iff, hindent _ (by decide), hindent _ (by decide)]

theorem optionCommand?_append (hbs : ∀ c ∈ bs, Text.isBlank c = true) (line : List Char) :
    BodyDraft.optionCommand? (line ++ bs) = BodyDraft.optionCommand? line := by
  have hbody : commandBody? (line ++ bs) = commandBody? line := by
    rw [commandBody?, commandBody?, Text.trim_append_of_blank hbs]
  rw [BodyDraft.optionCommand?, BodyDraft.optionCommand?, hbody]
  by_cases hline : Text.trim line = []
  · have hnone : commandBody? line = none := by
      rw [commandBody?, hline]
    rw [hnone]
    split <;> split <;> rfl
  · rw [isIndented_append hline]

/-- The entry in a line, or its fault, if there is an arrow. -/
def readArrow (number : Nat) (line : List Char) : Option (Except PlacedFault EntryText) :=
  (arrow? line).map fun (before, rest) => BodyDraft.readEntry number before rest

/-- Blanks behind a line leave its entry as it is, unless that opens a tag at its end. -/
theorem readArrow_append (hbs : ∀ c ∈ bs, Text.isBlank c = true)
    (h : ∀ before rest, arrow? line = some (before, rest) → ¬ EntryText.OpensTag rest)
    (number : Nat) : readArrow number (line ++ bs) = readArrow number line := by
  rw [readArrow, readArrow, arrow?_append hbs]
  cases harrow : arrow? line with
  | none => rfl
  | some found =>
    obtain ⟨before, rest⟩ := found
    have hrest := h before rest harrow
    simp only [Option.map_some, BodyDraft.readEntry, EntryText.ofText_append_of_blank hbs hrest]
    cases he : EntryText.ofText rest with
    | ok e => rfl
    | error e => simp only [TagFault.offset_append_of_blank hbs hrest he]

end Lines

/-- What the reader asks of a line that is not an entry is the same for both lines. -/
structure LinesAlike (f : Span → Span) (number : Nat) (line line' : List Char) : Prop where
  trim : Text.trim line' = Text.trim line
  trimEnd : Text.trimEnd line' = Text.trimEnd line
  optionCommand : BodyDraft.optionCommand? line' = BodyDraft.optionCommand? line
  span : f (lineSpan number line') = f (lineSpan number line)

theorem LinesAlike.refl (f : Span → Span) (number : Nat) (line : List Char) :
    LinesAlike f number line line := ⟨rfl, rfl, rfl, rfl⟩

theorem LinesAlike.commandBody {f : Span → Span} {number : Nat} {line line' : List Char}
    (h : LinesAlike f number line line') : commandBody? line' = commandBody? line := by
  rw [commandBody?, commandBody?, h.trim]

/-! ## Outcomes -/

/-- Both are results that are related, or both are the same fault, in places that `f` does not tell
apart. -/
def Outcome.Alike {α : Type} (f : Span → Span) (R : α → α → Prop) :
    Except PlacedFault α → Except PlacedFault α → Prop
  | .ok a, .ok a' => R a a'
  | .error (e, span), .error (e', span') => e = e' ∧ f span = f span'
  | .ok _, .error _ => False
  | .error _, .ok _ => False

namespace Outcome

variable {α β : Type} {f : Span → Span} {R : α → α → Prop} {x y : Except PlacedFault α}

theorem Alike.refl (h : ∀ a, R a a) (x : Except PlacedFault α) : Alike f R x x := by
  cases x with
  | ok a => exact h a
  | error e => exact ⟨rfl, rfl⟩

theorem Alike.cases (h : Alike f R x y) :
    (∃ a a', x = .ok a ∧ y = .ok a' ∧ R a a') ∨
      ∃ e span span', x = .error (e, span) ∧ y = .error (e, span') ∧ f span = f span' := by
  match x, y with
  | .ok a, .ok a' => exact .inl ⟨a, a', rfl, rfl, h⟩
  | .error (e, span), .error (e', span') =>
    obtain ⟨rfl, hspan⟩ := h
    exact .inr ⟨e, span, span', rfl, rfl, hspan⟩
  | .ok _, .error _ => cases h
  | .error _, .ok _ => cases h

theorem Alike.map {S : β → β → Prop} {g g' : α → β} (h : Alike f R x y)
    (hg : ∀ a a', R a a' → S (g a) (g' a')) : Alike f S (x.map g) (y.map g') := by
  rcases h.cases with ⟨a, a', rfl, rfl, hr⟩ | ⟨e, span, span', rfl, rfl, hspan⟩
  · exact hg a a' hr
  · exact ⟨rfl, hspan⟩

end Outcome

/-! ## Reading bodies -/

theorem ChoiceDraft.addEntry_mapSpans (f : Span → Span) (c : ChoiceDraft) (e : EntryText)
    (span : Span) : (c.addEntry e span).mapSpans f = (c.mapSpans f).addEntry e (f span) := rfl

namespace BodyDraft

variable {f : Span → Span} {b b' : BodyDraft} {number : Nat} {line line' : List Char}

/-- The bodies are the same when `f` has changed their spans. -/
def Alike (f : Span → Span) (b b' : BodyDraft) : Prop := b.mapSpans f = b'.mapSpans f

theorem Alike.push (h : b.Alike f b') {s s' : Step} (hs : s.mapSpans f = s'.mapSpans f) :
    (b.push s).Alike f (b'.push s') := by
  rw [Alike, ← push_mapSpans, ← push_mapSpans, h, hs]

theorem Alike.settle (h : b.Alike f b') : b.settle.Alike f b'.settle := by
  rw [Alike, ← settle_mapSpans, ← settle_mapSpans, h]

theorem Alike.withChoice (h : b.Alike f b') {c c' : ChoiceDraft}
    (hc : c.mapSpans f = c'.mapSpans f) :
    ({ b with choice := some c } : BodyDraft).Alike f { b' with choice := some c' } := by
  show ({ b.mapSpans f with choice := some (c.mapSpans f) } : BodyDraft) =
    { b'.mapSpans f with choice := some (c'.mapSpans f) }
  rw [h, hc]

theorem Alike.withBranches (h : b.Alike f b') {branches branches' : List BranchDraft}
    (hbranches : branches.map (BranchDraft.mapSpans f) = branches'.map (BranchDraft.mapSpans f)) :
    ({ b with branches := branches } : BodyDraft).Alike f { b' with branches := branches' } := by
  show ({ b.mapSpans f with branches := branches.map (BranchDraft.mapSpans f) } : BodyDraft) =
    { b'.mapSpans f with branches := branches'.map (BranchDraft.mapSpans f) }
  rw [h, hbranches]

theorem Alike.branches (h : b.Alike f b') :
    b.branches.map (BranchDraft.mapSpans f) = b'.branches.map (BranchDraft.mapSpans f) :=
  congrArg BodyDraft.branches h

theorem Alike.choice (h : b.Alike f b') :
    b.choice.map (ChoiceDraft.mapSpans f) = b'.choice.map (ChoiceDraft.mapSpans f) :=
  congrArg BodyDraft.choice h

theorem readOptionCommand_alike (hspan : f (lineSpan number line') = f (lineSpan number line))
    (body : List Char) :
    Outcome.Alike f Eq (readOptionCommand number line body)
      (readOptionCommand number line' body) := by
  rw [readOptionCommand, readOptionCommand]
  split
  · exact ⟨rfl, hspan.symm⟩
  · split
    · rfl
    · exact ⟨rfl, hspan.symm⟩

theorem readInChoice_eq (b : BodyDraft) (c : ChoiceDraft) (number : Nat) (line : List Char) :
    b.readInChoice c number line =
      match readArrow number line with
      | some entry => entry.map fun e =>
        some { b with choice := some (c.addEntry e (lineSpan number line)) }
      | none =>
        match optionCommand? line with
        | some body => (readOptionCommand number line body).map fun command =>
          some { b with choice := some (c.addCommand command) }
        | none => .ok none := by
  rw [readInChoice, readArrow]
  cases arrow? line <;> rfl

theorem readStep_eq (b : BodyDraft) (number : Nat) (line : List Char) :
    b.readStep number line =
      match readArrow number line with
      | some entry => entry.map fun e =>
        { b with choice := some (ChoiceDraft.addEntry ⟨lineSpan number line, [], none⟩ e
          (lineSpan number line)) }
      | none =>
        match commandBody? line with
        | some body => b.readCommandLine number line body
        | none =>
          .ok (b.push (.line (String.ofList (Text.trimEnd line)) (lineSpan number line))) := by
  rw [readStep, readArrow]
  cases arrow? line <;> rfl

theorem readInChoice_alike (hline : LinesAlike f number line line')
    (hentry : readArrow number line' = readArrow number line) (hb : b.Alike f b')
    {c c' : ChoiceDraft} (hc : c.mapSpans f = c'.mapSpans f) :
    Outcome.Alike f (fun taken taken' => taken.map (mapSpans f) = taken'.map (mapSpans f))
      (b.readInChoice c number line) (b'.readInChoice c' number line') := by
  rw [readInChoice_eq, readInChoice_eq, hentry, hline.optionCommand]
  split
  · refine (Outcome.Alike.refl (R := Eq) (fun _ => rfl) _).map ?_
    rintro e e' rfl
    refine congrArg some (hb.withChoice ?_)
    rw [ChoiceDraft.addEntry_mapSpans, ChoiceDraft.addEntry_mapSpans, hc, hline.span]
  · split
    · refine (readOptionCommand_alike hline.span _).map ?_
      rintro command command' rfl
      refine congrArg some (hb.withChoice ?_)
      rw [← ChoiceDraft.addCommand_mapSpans, ← ChoiceDraft.addCommand_mapSpans, hc]
    · rfl

theorem readPlainCommand_alike (hspan : f (lineSpan number line') = f (lineSpan number line))
    (hb : b.Alike f b') (body : List Char) :
    Outcome.Alike f (Alike f) (b.readPlainCommand number line body)
      (b'.readPlainCommand number line' body) := by
  rw [readPlainCommand, readPlainCommand]
  split
  · apply hb.withBranches
    simp only [List.map_cons, hb.branches, BranchDraft.mapSpans, hspan]
  · split
    · exact hb.push (congrArg (Step.command _) hspan.symm)
    · exact ⟨rfl, hspan.symm⟩

/-- Bodies that are alike have as many open branches, and these are alike. -/
theorem Alike.branches_cases (h : b.Alike f b') :
    b.branches = [] ∧ b'.branches = [] ∨
      ∃ top outer top' outer', b.branches = top :: outer ∧ b'.branches = top' :: outer' ∧
        top.mapSpans f = top'.mapSpans f ∧
        outer.map (BranchDraft.mapSpans f) = outer'.map (BranchDraft.mapSpans f) := by
  have hbranches := h.branches
  cases hb : b.branches with
  | nil =>
    rw [hb, List.map_nil, eq_comm, List.map_eq_nil_iff] at hbranches
    exact .inl ⟨rfl, hbranches⟩
  | cons top outer =>
    rw [hb, List.map_cons, eq_comm, List.map_eq_cons_iff] at hbranches
    obtain ⟨top', outer', hb', htop, houter⟩ := hbranches
    exact .inr ⟨top, outer, top', outer', rfl, hb', htop.symm, houter.symm⟩

theorem readCommandLine_alike (hspan : f (lineSpan number line') = f (lineSpan number line))
    (hb : b.Alike f b') (body : List Char) :
    Outcome.Alike f (Alike f) (b.readCommandLine number line body)
      (b'.readCommandLine number line' body) := by
  have hplain := readPlainCommand_alike hspan hb body
  rcases hb.branches_cases with
    ⟨hnil, hnil'⟩ | ⟨top, outer, top', outer', hcons, hcons', htop, houter⟩
  · simp only [readCommandLine, hnil, hnil']
    exact hplain
  · simp only [readCommandLine, hcons, hcons']
    cases isElse body with
    | true =>
      apply hb.withBranches
      have hturned : ({ top with inElse := true } : BranchDraft).mapSpans f =
          ({ top' with inElse := true } : BranchDraft).mapSpans f :=
        congrArg (fun b : BranchDraft => { b with inElse := true }) htop
      rw [List.map_cons, List.map_cons, hturned, houter]
    | false =>
      cases isEndif body with
      | true =>
        apply (hb.withBranches houter).push
        rw [← BranchDraft.close_mapSpans, ← BranchDraft.close_mapSpans, htop]
      | false => exact hplain

theorem readStep_alike (hline : LinesAlike f number line line')
    (hentry : readArrow number line' = readArrow number line) (hb : b.Alike f b') :
    Outcome.Alike f (Alike f) (b.readStep number line) (b'.readStep number line') := by
  rw [readStep_eq, readStep_eq, hentry, hline.commandBody, hline.trimEnd]
  split
  · refine (Outcome.Alike.refl (R := Eq) (fun _ => rfl) _).map ?_
    rintro e e' rfl
    apply hb.withChoice
    rw [ChoiceDraft.addEntry_mapSpans, ChoiceDraft.addEntry_mapSpans]
    simp only [ChoiceDraft.mapSpans, hline.span]
  · split
    · exact readCommandLine_alike hline.span hb _
    · exact hb.push (congrArg (Step.line _) hline.span.symm)

end BodyDraft

/-! ## Reading drafts -/

/-- The places are of one kind, and the same when `f` has changed their spans. -/
inductive Place.Alike (f : Span → Span) : Place → Place → Prop
  | outside : Alike f .outside .outside
  | header {name : String} {span span' : Span} : f span = f span' →
      Alike f (.header name span) (.header name span')
  | body {b b' : BodyDraft} : b.Alike f b' → Alike f (.body b) (.body b')

theorem Place.Alike.refl (f : Span → Span) (place : Place) : place.Alike f place := by
  cases place with
  | outside => exact .outside
  | header name span => exact .header rfl
  | body b => exact .body rfl

namespace Draft

variable {f : Span → Span} {d d' : Draft} {number : Nat} {line line' : List Char}

/-- The drafts are the same when `f` has changed their spans. -/
structure Alike (f : Span → Span) (d d' : Draft) : Prop where
  graph : d.graph.mapSpans f = d'.graph.mapSpans f
  place : d.place.Alike f d'.place

theorem Alike.refl (f : Span → Span) (d : Draft) : d.Alike f d := ⟨rfl, .refl f _⟩

theorem Alike.settle (h : d.Alike f d') : d.settle.Alike f d'.settle := by
  obtain ⟨graph, place⟩ := d
  obtain ⟨graph', place'⟩ := d'
  obtain ⟨hgraph, hplace⟩ := h
  cases hplace with
  | outside => exact ⟨hgraph, .outside⟩
  | header hspan => exact ⟨hgraph, .header hspan⟩
  | body hb => exact ⟨hgraph, .body hb.settle⟩

theorem Alike.inBranch (h : d.Alike f d') : d.inBranch = d'.inBranch := by
  obtain ⟨graph, place⟩ := d
  obtain ⟨graph', place'⟩ := d'
  obtain ⟨-, hplace⟩ := h
  cases hplace with
  | outside => rfl
  | header hspan => rfl
  | body hb =>
    rcases hb.branches_cases with ⟨hnil, hnil'⟩ | ⟨top, outer, top', outer', hcons, hcons', -, -⟩
    · simp only [Draft.inBranch, hnil, hnil']
    · simp only [Draft.inBranch, hcons, hcons', List.isEmpty_cons]

theorem closeNode_alike (h : d.Alike f d') (fault : ScriptFault) :
    Outcome.Alike f (Alike f) (d.closeNode fault) (d'.closeNode fault) := by
  obtain ⟨graph, place⟩ := d
  obtain ⟨graph', place'⟩ := d'
  obtain ⟨hgraph, hplace⟩ := h
  have hinsert : ∀ {n n' : Node}, n.mapSpans f = n'.mapSpans f →
      (graph.insert n).mapSpans f = (graph'.insert n').mapSpans f := by
    intro n n' hn
    rw [Graph.mapSpans_insert, Graph.mapSpans_insert, hgraph, hn]
  cases hplace with
  | outside => exact ⟨hgraph, .outside⟩
  | header hspan =>
    refine ⟨hinsert ?_, .outside⟩
    rw [Node.mapSpans, Node.mapSpans, hspan]
  | body hb =>
    rcases hb.branches_cases with ⟨hnil, hnil'⟩ | ⟨top, outer, top', outer', hcons, hcons', htop, -⟩
    · simp only [closeNode, hnil, hnil']
      refine ⟨hinsert ?_, .outside⟩
      rw [← BodyDraft.toNode_mapSpans, ← BodyDraft.toNode_mapSpans, hb]
    · simp only [closeNode, hcons, hcons']
      exact ⟨rfl, congrArg BranchDraft.span htop⟩

theorem readTitle_alike (hspan : f (lineSpan number line') = f (lineSpan number line))
    (h : d.Alike f d') (name : List Char) :
    Outcome.Alike f (Alike f) (d.readTitle number line name) (d'.readTitle number line' name) := by
  rw [readTitle, readTitle]
  rcases (closeNode_alike h .openIfAtEndOfNode).cases with
    ⟨closed, closed', hd, hd', hclosed⟩ | ⟨e, span, span', hd, hd', he⟩
  · simp only [hd, hd']
    split
    · exact ⟨rfl, hspan.symm⟩
    · exact ⟨hclosed.graph, .header hspan.symm⟩
  · simp only [hd, hd']
    exact ⟨rfl, he⟩

theorem readFence_alike (hspan : f (lineSpan number line') = f (lineSpan number line))
    (h : d.Alike f d') :
    Outcome.Alike f (Alike f) (d.readFence number line) (d'.readFence number line') := by
  obtain ⟨graph, place⟩ := d
  obtain ⟨graph', place'⟩ := d'
  obtain ⟨hgraph, hplace⟩ := h
  cases hplace with
  | outside => exact ⟨rfl, hspan.symm⟩
  | header hheader =>
    refine ⟨hgraph, .body ?_⟩
    rw [BodyDraft.Alike, BodyDraft.start, BodyDraft.start]
    simp only [BodyDraft.mapSpans, hheader]
  | body hb => exact ⟨hgraph, .body hb⟩

/-- In the place of a draft the entries of both lines are read alike. Outside of bodies an arrow
means nothing. -/
def ReadsEntries (number : Nat) (line line' : List Char) (d : Draft) : Prop :=
  ∀ b, d.place = .body b → readArrow number line' = readArrow number line

theorem readsEntries_settle {number : Nat} {line line' : List Char} {d : Draft}
    (h : d.ReadsEntries number line line') : d.settle.ReadsEntries number line line' := by
  intro b hb
  obtain ⟨graph, place⟩ := d
  cases place with
  | outside => cases hb
  | header name span => cases hb
  | body b' => exact h b' rfl

theorem readSettled_alike (hline : LinesAlike f number line line')
    (hentry : d.ReadsEntries number line line') (h : d.Alike f d') :
    Outcome.Alike f (Alike f) (d.readSettled number line) (d'.readSettled number line') := by
  rw [readSettled, readSettled, hline.trim, h.inBranch]
  cases titleName? (Text.trim line) with
  | some name => exact readTitle_alike hline.span h name
  | none =>
    dsimp only
    split
    · exact closeNode_alike h _
    · split
      · exact readFence_alike hline.span h
      · obtain ⟨graph, place⟩ := d
        obtain ⟨graph', place'⟩ := d'
        obtain ⟨hgraph, hplace⟩ := h
        cases hplace with
        | outside => exact ⟨hgraph, .outside⟩
        | header hspan => exact ⟨hgraph, .header hspan⟩
        | body hb =>
          dsimp only
          split
          · exact ⟨hgraph, .body hb⟩
          · refine (BodyDraft.readStep_alike hline (hentry _ rfl) hb).map ?_
            exact fun _ _ hnext => ⟨hgraph, .body hnext⟩

/-- **One line.** Over lines that are alike, drafts that are alike stay so, or find the same
fault. -/
theorem readLine_alike (hline : LinesAlike f number line line')
    (hentry : d.ReadsEntries number line line') (h : d.Alike f d') :
    Outcome.Alike f (Alike f) (d.readLine number line) (d'.readLine number line') := by
  have hsettled := readSettled_alike hline hentry h
  have hbehind := readSettled_alike hline (readsEntries_settle hentry) h.settle
  obtain ⟨graph, place⟩ := d
  obtain ⟨graph', place'⟩ := d'
  obtain ⟨hgraph, hplace⟩ := h
  cases hplace with
  | outside => exact hsettled
  | header hspan => exact hsettled
  | @body b b' hb =>
    have hchoice := hb.choice
    cases hc : b.choice with
    | none =>
      rw [hc, Option.map_none, eq_comm, Option.map_eq_none_iff] at hchoice
      simp only [readLine, hc, hchoice]
      exact hsettled
    | some c =>
      rw [hc, Option.map_some, eq_comm, Option.map_eq_some_iff] at hchoice
      obtain ⟨c', hc', hcc⟩ := hchoice
      have htaken := BodyDraft.readInChoice_alike hline (hentry b rfl) hb hcc.symm
      simp only [readLine, hc, hc']
      rcases htaken.cases with ⟨taken, taken', hd, hd', hsame⟩ | ⟨e, span, span', hd, hd', he⟩
      · simp only [hd, hd']
        cases taken with
        | some next =>
          rw [Option.map_some, eq_comm, Option.map_eq_some_iff] at hsame
          obtain ⟨next', rfl, hnext⟩ := hsame
          exact ⟨hgraph, .body hnext.symm⟩
        | none =>
          rw [Option.map_none, eq_comm, Option.map_eq_none_iff] at hsame
          rw [hsame]
          exact hbehind
      · simp only [hd, hd']
        exact ⟨rfl, he⟩

/-- **More lines.** Drafts that are alike stay so over the same lines, or find the same fault. -/
theorem readLines_alike (h : d.Alike f d') (lines : List String) :
    Outcome.Alike f (Alike f) (d.readLines number lines) (d'.readLines number lines) := by
  induction lines generalizing d d' number with
  | nil => exact h
  | cons line rest ih =>
    rw [readLines, readLines]
    rcases (readLine_alike (.refl f number line.toList) (fun _ _ => rfl) h).cases with
      ⟨next, next', hd, hd', hnext⟩ | ⟨e, span, span', hd, hd', he⟩
    · simp only [hd, hd']
      exact ih hnext
    · simp only [hd, hd']
      exact ⟨rfl, he⟩

theorem finish_alike (h : d.Alike f d') :
    Outcome.Alike f (fun g g' => g.mapSpans f = g'.mapSpans f) d.finish d'.finish :=
  (closeNode_alike h.settle _).map fun _ _ hclosed => hclosed.graph

end Draft

/-! ## Scripts -/

/-- **One line in a script.** With a line in the place of one that is alike, the lines of a script
give graphs that are alike, or the same fault. -/
theorem Graph.ofLines_alike {f : Span → Span} {before : List String} {line line' : String}
    (hline : LinesAlike f (1 + before.length) line.toList line'.toList)
    (hentry : ∀ d, Draft.start.readLines 1 before = .ok d →
      d.ReadsEntries (1 + before.length) line.toList line'.toList) (after : List String) :
    Outcome.Alike f (fun g g' => g.mapSpans f = g'.mapSpans f) (ofLines (before ++ line :: after))
      (ofLines (before ++ line' :: after)) := by
  rw [ofLines, ofLines, Draft.readLines_append, Draft.readLines_append]
  cases hbefore : Draft.start.readLines 1 before with
  | error e => exact ⟨rfl, rfl⟩
  | ok d =>
    simp only [Draft.readLines]
    rcases (Draft.readLine_alike hline (hentry d hbefore) (.refl f d)).cases with
      ⟨next, next', hd, hd', hnext⟩ | ⟨e, span, span', hd, hd', he⟩
    · simp only [hd, hd']
      have hafter : Outcome.Alike f (Draft.Alike f)
          (next.readLines (1 + before.length + 1) after)
          (next'.readLines (1 + before.length + 1) after) := Draft.readLines_alike hnext after
      rcases hafter.cases with ⟨last, last', hd, hd', hlast⟩ | ⟨e, span, span', hd, hd', he⟩
      · simp only [hd, hd']
        exact Draft.finish_alike hlast
      · simp only [hd, hd']
        exact ⟨rfl, he⟩
    · simp only [hd, hd']
      exact ⟨rfl, he⟩

/-! ## Ends of spans -/

/-- The span without its end: the place where it starts. -/
def Span.atStart (s : Span) : Span := { s with endColumn := s.column }

/-- Blanks at the end of a line change nothing that the reader asks of it but where it ends. -/
theorem linesAlike_append {bs : List Char} (hbs : ∀ c ∈ bs, Text.isBlank c = true) (number : Nat)
    (line : List Char) : LinesAlike .atStart number line (line ++ bs) where
  trim := Text.trim_append_of_blank hbs
  trimEnd := Text.trimEnd_append_of_blank hbs
  optionCommand := optionCommand?_append hbs line
  span := rfl

/-- The reports say the same of the same place; where it ends and what stands there is left out. -/
structure Report.Alike (r r' : Report) : Prop where
  file : r'.file = r.file
  code : r'.code = r.code
  area : r'.area = r.area
  message : r'.message = r.message
  suggestion : r'.suggestion = r.suggestion
  line : r'.span.line = r.span.line
  column : r'.span.column = r.span.column

theorem Report.ofFault_alike {s s' : Source} {e : ScriptFault} {span span' : Span}
    (hname : s'.name = s.name) (h : span.atStart = span'.atStart) :
    (ofFault s e span).Alike (ofFault s' e span') where
  file := hname
  code := rfl
  area := rfl
  message := rfl
  suggestion := rfl
  line := (congrArg Span.line h).symm
  column := (congrArg Span.column h).symm

/-- Below these lines the line is an entry that opens a tag at its end: they lead into a body, and
there is an arrow in the line. -/
def OpensTagBelow (before : List (List Char)) (line : List Char) : Prop :=
  ∃ d b indent rest, Draft.start.readLines 1 (before.map String.ofList) = .ok d ∧
    d.place = .body b ∧ arrow? line = some (indent, rest) ∧ EntryText.OpensTag rest

namespace Graph

/-- Sources whose lines are read alike give graphs that are alike, or reports that are. -/
theorem ofSource_alike {name : String} {lines lines' : List String}
    (h : Outcome.Alike .atStart (fun g g' => g.mapSpans .atStart = g'.mapSpans .atStart)
      (ofLines lines) (ofLines lines')) :
    (∀ g, ofSource ⟨name, lines⟩ = .ok g →
        ∃ g', ofSource ⟨name, lines'⟩ = .ok g' ∧ g'.mapSpans .atStart = g.mapSpans .atStart) ∧
      ∀ r, ofSource ⟨name, lines⟩ = .error r →
        ∃ r', ofSource ⟨name, lines'⟩ = .error r' ∧ r.Alike r' := by
  rw [ofSource_eq_ofLines, ofSource_eq_ofLines]
  rcases h.cases with ⟨g, g', hg, hg', hsame⟩ | ⟨e, span, span', he, he', hspan⟩
  · simp only [hg, hg']
    refine ⟨fun h hh => ⟨g', rfl, ?_⟩, fun r hr => nomatch hr⟩
    cases hh
    exact hsame.symm
  · simp only [he, he']
    refine ⟨fun g hg => (nomatch hg), fun r hr => ⟨_, rfl, ?_⟩⟩
    cases hr
    exact Report.ofFault_alike rfl hspan

/-- **Blanks at the end of a line say nothing.** In the text of a script each line has its end. When
spaces and tabs are put in there, so that they go to this line, the same graph is read but for the
columns where spans end, or the same fault is found at the same line and column. That does not hold
of an entry which opens a tag at its end. -/
theorem ofText_insert_blanks {name text : String} {before after : List (List Char)}
    {line : List Char} (hline : Text.splitLines text.toList = before ++ line :: after)
    (hopen : ¬ OpensTagBelow before line) :
    ∃ front back : String, text = front ++ back ∧
      ∀ blanks : String, (∀ c ∈ blanks.toList, c = ' ' ∨ c = '\t') →
        Text.splitLines (front ++ blanks ++ back).toList =
            before ++ (line ++ blanks.toList) :: after ∧
          (∀ g, ofText name text = .ok g →
            ∃ g', ofText name (front ++ blanks ++ back) = .ok g' ∧
              g'.mapSpans .atStart = g.mapSpans .atStart) ∧
          ∀ r, ofText name text = .error r →
            ∃ r', ofText name (front ++ blanks ++ back) = .error r' ∧ r.Alike r' := by
  obtain ⟨front, back, htext, hinsert⟩ := Text.hasLineEnds text.toList hline
  refine ⟨String.ofList front, String.ofList back, ?_, fun blanks hblanks => ?_⟩
  · rw [← String.ofList_append, ← htext, String.ofList_toList]
  have hbs : ∀ c ∈ blanks.toList, Text.isBlank c = true := by
    intro c hc
    rcases hblanks c hc with rfl | rfl <;> decide
  have honeLine : Text.OneLine blanks.toList :=
    ⟨fun hmem => absurd (hblanks _ hmem) (by decide),
      fun hmem => absurd (hblanks _ hmem) (by decide)⟩
  have hsplit : Text.splitLines (String.ofList front ++ blanks ++ String.ofList back).toList =
      before ++ (line ++ blanks.toList) :: after := by
    rw [String.toList_append, String.toList_append, String.toList_ofList, String.toList_ofList,
      hinsert _ honeLine]
  refine ⟨hsplit, ?_⟩
  rw [ofText, ofText, Source.ofText, Source.ofText, hline, hsplit, List.map_append, List.map_append,
    List.map_cons, List.map_cons]
  refine ofSource_alike (ofLines_alike ?_ ?_ _)
  · rw [String.toList_ofList, String.toList_ofList]
    exact linesAlike_append hbs _ line
  · intro d hd b hb
    rw [String.toList_ofList, String.toList_ofList]
    refine readArrow_append hbs (fun indent rest harrow htag => ?_) _
    exact hopen ⟨d, b, indent, rest, hd, hb, harrow, htag⟩

/-- A script with an entry that has a tag at its end. -/
def tollScript : String := "title: Toll\r\n---\r\n-> Pay [time 3]\r\n\t<<jump Toll>>"

theorem ofText_insert_blanks_tollScript :
    ∃ g, ofText "toll" tollScript = .ok g ∧
      ∃ front back : String, tollScript = front ++ back ∧
        Text.splitLines (front ++ " \t " ++ back).toList =
          ["title: Toll".toList, "---".toList, "-> Pay [time 3] \t ".toList,
            "\t<<jump Toll>>".toList] ∧
        ∃ g', ofText "toll" (front ++ " \t " ++ back) = .ok g' ∧
          g'.mapSpans .atStart = g.mapSpans .atStart := by
  have hline : Text.splitLines tollScript.toList =
      ["title: Toll".toList, "---".toList] ++ "-> Pay [time 3]".toList ::
        ["\t<<jump Toll>>".toList] := by
    decide
  have hopen : ¬ OpensTagBelow ["title: Toll".toList, "---".toList] "-> Pay [time 3]".toList := by
    rintro ⟨d, b, indent, rest, -, -, harrow, htag⟩
    cases harrow
    have hends : ∀ t : Tag, ¬ t.EndsInOpener " Pay [time 3]".toList := by
      intro t
      cases t <;> decide
    cases htag with
    | condition hopener _ => exact hends _ hopener
    | time hopener _ _ => exact hends _ hopener
    | place hopener _ _ _ => exact hends _ hopener
  have hread : (ofText "toll" tollScript).isOk := by decide +kernel
  cases hg : ofText "toll" tollScript with
  | error r =>
    rw [hg] at hread
    cases hread
  | ok g =>
    obtain ⟨front, back, htext, hinsert⟩ := ofText_insert_blanks hline hopen
    obtain ⟨hsplit, hsame, -⟩ := hinsert " \t " (by simp)
    exact ⟨g, rfl, front, back, htext, hsplit, hsame g hg⟩

end Graph

/-- A script with an entry at its end. -/
def payScript (entry : String) : String := "title: Toll\n---\n-> " ++ entry

/-- The wording of the fault of a script, and the column where it is shown. -/
def faultOf (text : String) : Option (String × UInt32) :=
  (Check.ofText "toll" text).report.map fun r => (r.message, r.span.column)

/-- A blank behind the opener of a tag is not passed over: where there was a label, it makes a tag,
which is not closed; and the fault of a tag that only shows when the other one is cut out moves
there. -/
theorem blank_makes_tag :
    faultOf (payScript "Pay [if") = none ∧
      faultOf (payScript "Pay [if" ++ " ") =
        some ("[if] tag is missing its closing ']'", 8) ∧
      faultOf (payScript "Pay [time") = none ∧
      faultOf (payScript "Pay [time" ++ "\t") =
        some ("[time] tag is missing its closing ']'", 8) ∧
      faultOf (payScript "[time[if x]] [time") =
        some ("invalid seconds '' in [time] tag", 3) ∧
      faultOf (payScript "[time[if x]] [time" ++ " ") =
        some ("invalid seconds '' in [time] tag", 17) := by
  decide +kernel

end Dialogue
