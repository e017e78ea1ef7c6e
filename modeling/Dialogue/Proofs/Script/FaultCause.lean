import Dialogue.Proofs.Script.OpenPieces

/-!
# What a fault is about

Every fault is about something that stands in the script, and it is shown there. `Arises lines e`
says of a fault with its place how it comes about, with one rule for each cause: an empty title, a
fence outside of all sections, a branch that the body of a section leaves open, a tag of an entry, a
command, a command under an entry. It knows of no reader: the lines are those of the whole script,
and what is open at a line is told from the lines above it (`openers`, `UnderEntry`).

`Place.Reached` ties the place of a draft to the lines read so far. From there a line is read and
the next place is reached, or a fault arises (`Draft.reached_of_readLine`,
`Draft.arises_of_readLine`); so every fault of a script arises (`Graph.arises_of_ofLines`).
-/

namespace Dialogue

/-- The lines end with the title of a section and these lines of it, which neither a close nor
another title has ended. -/
structure InSection (lines behind : List (String × Nat)) : Prop where
  title : ∃ above title name, lines = above ++ title :: behind ∧
    titleName? (Text.trim title.1.toList) = some name
  behind_goesOn : ∀ line ∈ behind, goesOn line = true

/-- How a fault comes about in a script that is given by its lines and their numbers. -/
inductive Arises (lines : List (String × Nat)) : PlacedFault → Prop
  | emptyTitle {line : String × Nat} : line ∈ lines →
      titleName? (Text.trim line.1.toList) = some [] → Arises lines (.emptyTitle, spanOf line)
  | fenceWithoutTitle {above below : List (String × Nat)} {line : String × Nat} :
      lines = above ++ line :: below → (∀ behind, ¬ InSection above behind) →
      isFence (Text.trim line.1.toList) = true → Arises lines (.fenceWithoutTitle, spanOf line)
  | openIf {s : Section} {opener : String × Nat} {outer : List (String × Nat)}
      {fault : ScriptFault} : s ∈ sections lines → openers s.body = opener :: outer →
      fault.code = ⟨101⟩ → Arises lines (fault, spanOf opener)
  | tag {line : String × Nat} {before rest : List Char} {e : TagFault} : line ∈ lines →
      arrow? line.1.toList = some (before, rest) → EntryText.ofText rest = .error e →
      Arises lines
        (.tag e, .point (.ofNat line.2) (.ofNat (before.length + 2 + e.offset rest + 1)))
  | command {line : String × Nat} {body : List Char} {e : CommandFault} : line ∈ lines →
      commandBody? line.1.toList = some body → ifCondition? body = none →
      Command.ofText body = .error e → Arises lines (.command e, spanOf line)
  | optionCommand {above below : List (String × Nat)} {line : String × Nat} {body : List Char}
      {e : CommandFault} : lines = above ++ line :: below → UnderEntry above →
      isIndented line.1.toList = true → commandBody? line.1.toList = some body →
      ifCondition? body = none → Command.ofText body = .error e →
      Arises lines (.optionCommand e, spanOf line)
  | ifUnderOption {above below : List (String × Nat)} {line : String × Nat} {body : List Char} :
      lines = above ++ line :: below → UnderEntry above → isIndented line.1.toList = true →
      commandBody? line.1.toList = some body → (ifCondition? body).isSome →
      Arises lines (.ifUnderOption, spanOf line)

/-! ## Bodies -/

namespace BodyDraft

variable {b : BodyDraft} {c : ChoiceDraft} {line : String × Nat} {e : PlacedFault}
  {lines above below : List (String × Nat)} {body before rest : List Char}

theorem arises_of_readEntry (hline : line ∈ lines)
    (harrow : arrow? line.1.toList = some (before, rest))
    (h : readEntry line.2 before rest = .error e) : Arises lines e := by
  rw [readEntry] at h
  split at h
  · cases h
  · next he =>
    cases h
    exact .tag hline harrow he

theorem arises_of_readOptionCommand (hlines : lines = above ++ line :: below)
    (hunder : UnderEntry above) (hbody : optionCommand? line.1.toList = some body)
    (h : readOptionCommand line.2 line.1.toList body = .error e) : Arises lines e := by
  obtain ⟨hindented, hcommand⟩ := optionCommand?_eq_some hbody
  rw [readOptionCommand] at h
  split at h
  · next hcondition =>
    cases h
    exact .ifUnderOption hlines hunder hindented hcommand hcondition
  · next hcondition =>
    rw [Option.not_isSome_iff_eq_none] at hcondition
    split at h
    · cases h
    · next he =>
      cases h
      exact .optionCommand hlines hunder hindented hcommand hcondition he

theorem arises_of_readInChoice (hlines : lines = above ++ line :: below) (hunder : UnderEntry above)
    (h : b.readInChoice c line.2 line.1.toList = .error e) : Arises lines e := by
  rw [readInChoice] at h
  split at h
  · next before rest harrow =>
    have hmem : line ∈ lines := by simp [hlines]
    exact arises_of_readEntry hmem harrow (Outcome.map_eq_error_iff.mp h)
  · split at h
    · next body hbody =>
      exact arises_of_readOptionCommand hlines hunder hbody (Outcome.map_eq_error_iff.mp h)
    · cases h

theorem arises_of_readPlainCommand (hline : line ∈ lines)
    (hbody : commandBody? line.1.toList = some body)
    (h : b.readPlainCommand line.2 line.1.toList body = .error e) : Arises lines e := by
  rw [readPlainCommand] at h
  split at h
  · cases h
  · next hcondition =>
    split at h
    · cases h
    · next he =>
      cases h
      exact .command hline hbody hcondition he

theorem arises_of_readStep (hline : line ∈ lines)
    (h : b.readStep line.2 line.1.toList = .error e) : Arises lines e := by
  rw [readStep] at h
  split at h
  · next before rest harrow =>
    exact arises_of_readEntry hline harrow (Outcome.map_eq_error_iff.mp h)
  · split at h
    · next body hbody =>
      rw [readCommandLine] at h
      split at h
      · cases h
      · cases h
      · exact arises_of_readPlainCommand hline hbody h
    · cases h

end BodyDraft

/-! ## Sections -/

section

variable {lines behind below : List (String × Nat)} {line : String × Nat}

theorem InSection.start {name : List Char}
    (h : titleName? (Text.trim line.1.toList) = some name) (lines : List (String × Nat)) :
    InSection (lines ++ [line]) [] :=
  ⟨⟨lines, line, name, rfl, h⟩, fun _ h => absurd h List.not_mem_nil⟩

theorem InSection.append (h : InSection lines behind) (hend : endsBody line.1.toList = false) :
    InSection (lines ++ [line]) (behind ++ [line]) := by
  obtain ⟨⟨above, title, name, rfl, htitle⟩, hgoesOn⟩ := h
  refine ⟨⟨above, title, name, by simp, htitle⟩, List.forall_mem_append.mpr ⟨hgoesOn, ?_⟩⟩
  simp [goesOn, hend]

/-- A section that the last line has not ended was open before it, unless the line is its title. -/
theorem InSection.of_append (h : InSection (lines ++ [line]) behind) :
    titleName? (Text.trim line.1.toList) ≠ none ∨
      endsBody line.1.toList = false ∧ ∃ front, InSection lines front := by
  obtain ⟨⟨above, title, name, heq, htitle⟩, hgoesOn⟩ := h
  rcases List.eq_nil_or_concat behind with rfl | ⟨front, last, rfl⟩
  · obtain ⟨-, hline⟩ := List.append_inj' heq rfl
    cases hline
    exact .inl (by rw [htitle]; exact Option.some_ne_none name)
  · rw [List.concat_eq_append, ← List.cons_append, ← List.append_assoc] at heq
    obtain ⟨rfl, hline⟩ := List.append_inj' heq rfl
    cases hline
    rw [List.concat_eq_append, List.forall_mem_append] at hgoesOn
    refine .inr ⟨?_, front, ⟨above, title, name, rfl, htitle⟩, hgoesOn.1⟩
    have hlast := hgoesOn.2 line List.mem_cons_self
    rwa [goesOn, Bool.not_eq_true'] at hlast

theorem mem_sections_of_title {name : List Char}
    (h : titleName? (Text.trim line.1.toList) = some name) (above : List (String × Nat)) :
    ⟨String.ofList name, spanOf line, behindFence (below.takeWhile goesOn)⟩ ∈
      sections (above ++ line :: below) := by
  induction above with
  | nil =>
    rw [List.nil_append, sections, h]
    exact List.mem_cons_self
  | cons first above ih =>
    rw [List.cons_append, sections]
    split
    · exact List.mem_cons_of_mem _ ih
    · exact ih

/-- The body of a section that ends here is what stands behind its fence. -/
theorem InSection.exists_section (h : InSection lines behind) (hend : below.takeWhile goesOn = []) :
    ∃ s ∈ sections (lines ++ below), s.body = behindFence behind := by
  obtain ⟨⟨above, title, name, rfl, htitle⟩, hgoesOn⟩ := h
  have hbody : (behind ++ below).takeWhile goesOn = behind := by
    rw [List.takeWhile_append_of_pos hgoesOn, hend, List.append_nil]
  have hsection :
      ⟨String.ofList name, spanOf title, behindFence ((behind ++ below).takeWhile goesOn)⟩ ∈
        sections (above ++ title :: (behind ++ below)) := mem_sections_of_title htitle above
  rw [hbody] at hsection
  refine ⟨⟨String.ofList name, spanOf title, behindFence behind⟩, ?_, rfl⟩
  rw [List.append_assoc, List.cons_append]
  exact hsection

theorem behindFence_concat_fence (h : ∀ line ∈ behind, isFence (Text.trim line.1.toList) = false)
    (hfence : isFence (Text.trim line.1.toList) = true) : behindFence (behind ++ [line]) = [] := by
  induction behind with
  | nil => rw [List.nil_append, behindFence, if_pos hfence]
  | cons first behind ih =>
    obtain ⟨hfirst, hbehind⟩ := List.forall_mem_cons.mp h
    rw [List.cons_append, behindFence, hfirst]
    exact ih hbehind

theorem behindFence_append (h : ∃ line ∈ behind, isFence (Text.trim line.1.toList) = true)
    (more : List (String × Nat)) : behindFence (behind ++ more) = behindFence behind ++ more := by
  induction behind with
  | nil =>
    obtain ⟨_, hmem, -⟩ := h
    cases hmem
  | cons first behind ih =>
    rw [List.cons_append, behindFence, behindFence]
    split
    · rfl
    · next hfirst =>
      obtain ⟨fence, hmem, hfence⟩ := h
      rcases List.mem_cons.mp hmem with rfl | hmem
      · exact absurd hfence hfirst
      · exact ih ⟨fence, hmem, hfence⟩

theorem behindFence_suffix (behind : List (String × Nat)) : behindFence behind <:+ behind := by
  induction behind with
  | nil => exact List.suffix_rfl
  | cons first behind ih =>
    rw [behindFence]
    split
    · exact List.suffix_cons first behind
    · exact ih.trans (List.suffix_cons first behind)

/-- Under an entry of a section is under an entry of the script. -/
theorem InSection.underEntry (h : InSection lines behind)
    (hunder : UnderEntry (behindFence behind)) : UnderEntry lines := by
  obtain ⟨⟨above, title, name, rfl, -⟩, -⟩ := h
  obtain ⟨front, hfront⟩ := (behindFence_suffix behind).trans (List.suffix_cons title behind)
  rw [← hfront, ← List.append_assoc]
  exact hunder.below _

end

/-! ## Drafts -/

/-- A draft can be at this place when it has read the lines. -/
inductive Place.Reached (lines : List (String × Nat)) : Place → Prop
  | outside : (∀ behind, ¬ InSection lines behind) → Reached lines .outside
  | header {behind : List (String × Nat)} {name : String} {span : Span} :
      InSection lines behind → (∀ line ∈ behind, isFence (Text.trim line.1.toList) = false) →
      Reached lines (.header name span)
  | body {behind : List (String × Nat)} {b : BodyDraft} {roles : List Role} :
      InSection lines behind → (∃ line ∈ behind, isFence (Text.trim line.1.toList) = true) →
      List.Forall₂ Role.FitsLine (behindFence behind) roles → b.SoFar roles →
      Reached lines (.body b)

namespace Draft

variable {d d' : Draft} {line : String × Nat} {lines below : List (String × Nat)} {e : PlacedFault}

/-- A line that ends no section leads to the next place in it. -/
theorem reached_of_goesOn (h : d.place.Reached lines) (hend : endsBody line.1.toList = false)
    (hread : d.readLine line.2 line.1.toList = .ok d') : d'.place.Reached (lines ++ [line]) := by
  obtain ⟨g, place⟩ := d
  cases h with
  | outside hno =>
    rw [readLine_outside hend hread]
    refine .outside fun behind hbehind => ?_
    rcases hbehind.of_append with htitle | ⟨-, front, hfront⟩
    · exact htitle (endsBody_eq_false_iff.mp hend).1
    · exact hno front hfront
  | header hsection hfences =>
    rw [readLine_header hend hread]
    cases hfence : isFence (Text.trim line.1.toList) with
    | true =>
      -- The body starts behind the fence, and no line of it has been read.
      have hstart : OpenSoFar [] [] [] := .node .nil
      refine .body (hsection.append hend) ⟨line, by simp, hfence⟩ ?_ hstart
      rw [behindFence_concat_fence hfences hfence]
      exact .nil
    | false =>
      exact .header (hsection.append hend) (List.forall_mem_append.mpr ⟨hfences, by simp [hfence]⟩)
  | body hsection hfence hfits hb =>
    obtain ⟨b', rfl, -, -, role, hrole, hb'⟩ := grown_readLine hb hend hread
    obtain ⟨fence, hmem, hisFence⟩ := hfence
    refine .body (hsection.append hend) ⟨fence, List.mem_append_left _ hmem, hisFence⟩ ?_ hb'
    rw [behindFence_append ⟨fence, hmem, hisFence⟩]
    exact List.rel_append hfits (.cons hrole .nil)

/-- **One line that can be read.** -/
theorem reached_of_readLine (h : d.place.Reached lines)
    (hread : d.readLine line.2 line.1.toList = .ok d') : d'.place.Reached (lines ++ [line]) := by
  cases hend : endsBody line.1.toList with
  | false => exact reached_of_goesOn h hend hread
  | true =>
    cases htitle : titleName? (Text.trim line.1.toList) with
    | some name =>
      rw [readLine_eq_readTitle htitle, readTitle] at hread
      split at hread
      · cases hread
      · split at hread
        · cases hread
        · cases hread
          exact .header (.start htitle lines) fun _ h => absurd h List.not_mem_nil
    | none =>
      have hclose : isClose (Text.trim line.1.toList) = true := by
        rwa [endsBody, htitle, Option.isSome_none, Bool.false_or] at hend
      rw [readLine_eq_closeNode htitle hclose] at hread
      obtain ⟨g, rfl⟩ := exists_outside_of_closeNode hread
      refine .outside fun behind hbehind => ?_
      rcases hbehind.of_append with hname | ⟨hgoesOn, -⟩
      · exact hname htitle
      · rw [hend] at hgoesOn
        cases hgoesOn

/-! ### Faults -/

/-- A branch that is open when its section ends is the innermost one that the body leaves open. -/
theorem arises_of_closeNode {fault : ScriptFault} (hcode : fault.code = ⟨101⟩)
    (h : d.place.Reached lines) (hend : below.takeWhile goesOn = [])
    (hclose : d.settle.closeNode fault = .error e) : Arises (lines ++ below) e := by
  obtain ⟨g, place⟩ := d
  cases h with
  | outside => cases hclose
  | header => cases hclose
  | @body behind b roles hsection _ hfits hb =>
    simp only [settle, closeNode] at hclose
    split at hclose
    · cases hclose
    · next top outer hbranches =>
      cases hclose
      obtain ⟨s, hs, hbody⟩ := hsection.exists_section hend
      have hsettled : b.settle.SoFar roles := (BodyDraft.soFar_iff b.choice_settle).mpr hb.settle
      have hspans := hsettled.spans_branches hfits
      rw [hbranches, List.map_cons, ← hbody] at hspans
      obtain ⟨opener, rest, hopeners, hspan, -⟩ := List.map_eq_cons_iff.mp hspans.symm
      rw [← hspan]
      exact .openIf hs hopeners hcode

/-- A line that ends no section is a fence outside of all sections, or it is faulty as a step. -/
theorem arises_of_readSettled (hend : endsBody line.1.toList = false)
    (hplace : d.place = .outside → ∀ behind, ¬ InSection lines behind)
    (h : d.readSettled line.2 line.1.toList = .error e) : Arises (lines ++ line :: below) e := by
  obtain ⟨htitle, hclose⟩ := endsBody_eq_false_iff.mp hend
  rw [readSettled] at h
  simp only [htitle, hclose, Bool.false_eq_true, if_false] at h
  split at h
  · next hfence =>
    rw [Bool.and_eq_true] at hfence
    rw [readFence] at h
    split at h
    · next houtside =>
      cases h
      exact .fenceWithoutTitle rfl (hplace houtside) hfence.1
    · cases h
    · cases h
  · split at h
    · split at h
      · cases h
      · exact BodyDraft.arises_of_readStep (by simp) (Outcome.map_eq_error_iff.mp h)
    · cases h

/-- A line behind which its section goes on cannot be read. -/
theorem arises_of_readLine_goesOn (h : d.place.Reached lines) {below : List (String × Nat)}
    (hend : endsBody line.1.toList = false) (hread : d.readLine line.2 line.1.toList = .error e) :
    Arises (lines ++ line :: below) e := by
  have houtside : d.place = .outside → ∀ behind, ¬ InSection lines behind := by
    intro hplace
    rw [hplace] at h
    cases h with
    | outside hno => exact hno
  rw [readLine] at hread
  split at hread
  · next b hplace =>
    split at hread
    · exact arises_of_readSettled hend houtside hread
    · next c hchoice =>
      split at hread
      · next htaken =>
        cases hread
        rw [hplace] at h
        cases h with
        | body hsection _ hfits hb =>
          have hunder := hsection.underEntry (hb.underEntry hchoice hfits)
          exact BodyDraft.arises_of_readInChoice rfl hunder htaken
      · cases hread
      · refine arises_of_readSettled hend (fun hsettled => ?_) hread
        rw [settle, hplace] at hsettled
        cases hsettled
  · exact arises_of_readSettled hend houtside hread

/-- A title or a line that closes a node cannot be read. -/
theorem arises_of_readLine_stop (h : d.place.Reached lines) {below : List (String × Nat)}
    (hend : endsBody line.1.toList = true) (hread : d.readLine line.2 line.1.toList = .error e) :
    Arises (lines ++ line :: below) e := by
  have hstop : (line :: below).takeWhile goesOn = [] := takeWhile_goesOn_of_endsBody hend
  cases htitle : titleName? (Text.trim line.1.toList) with
  | some name =>
    rw [readLine_eq_readTitle htitle, readTitle] at hread
    split at hread
    · next hclose =>
      cases hread
      exact arises_of_closeNode rfl h hstop hclose
    · split at hread
      · next hname =>
        cases hread
        subst hname
        exact .emptyTitle (by simp) htitle
      · cases hread
  | none =>
    rw [endsBody, htitle, Option.isSome_none, Bool.false_or] at hend
    rw [readLine_eq_closeNode htitle hend] at hread
    exact arises_of_closeNode rfl h hstop hread

/-- **One line that cannot be read.** -/
theorem arises_of_readLine (h : d.place.Reached lines) (below : List (String × Nat))
    (hread : d.readLine line.2 line.1.toList = .error e) : Arises (lines ++ line :: below) e := by
  cases hend : endsBody line.1.toList with
  | false => exact arises_of_readLine_goesOn h hend hread
  | true => exact arises_of_readLine_stop h hend hread

/-! ### Several lines -/

variable {texts : List String} {number : Nat}

theorem reached_of_readLines (h : d.place.Reached lines)
    (hread : d.readLines number texts = .ok d') :
    d'.place.Reached (lines ++ texts.zipIdx number) := by
  induction texts generalizing d lines number with
  | nil =>
    cases hread
    rw [List.zipIdx_nil, List.append_nil]
    exact h
  | cons text rest ih =>
    rw [Draft.readLines] at hread
    split at hread
    · cases hread
    · next next hline =>
      have hnext : next.place.Reached (lines ++ [(text, number)]) := reached_of_readLine h hline
      have hrest := ih hnext hread
      rwa [List.append_assoc] at hrest

theorem arises_of_readLines (h : d.place.Reached lines)
    (hread : d.readLines number texts = .error e) : Arises (lines ++ texts.zipIdx number) e := by
  induction texts generalizing d lines number with
  | nil => cases hread
  | cons text rest ih =>
    rw [readLines] at hread
    split at hread
    · next hline =>
      cases hread
      have hfault : Arises (lines ++ (text, number) :: rest.zipIdx (number + 1)) e :=
        arises_of_readLine h _ hline
      exact hfault
    · next next hline =>
      have hnext : next.place.Reached (lines ++ [(text, number)]) := reached_of_readLine h hline
      have hrest := ih hnext hread
      rwa [List.append_assoc] at hrest

end Draft

/-! ## Scripts -/

/-- **Every fault of a script is about something in it.** -/
theorem Graph.arises_of_ofLines {texts : List String} {e : PlacedFault}
    (h : ofLines texts = .error e) : Arises (texts.zipIdx 1) e := by
  have hstart : Draft.start.place.Reached [] := .outside fun behind hbehind => by
    obtain ⟨⟨above, title, name, heq, -⟩, -⟩ := hbehind
    simp at heq
  rw [ofLines] at h
  split at h
  · next hread =>
    cases h
    exact Draft.arises_of_readLines hstart hread
  · next d hread =>
    have hreached := Draft.reached_of_readLines hstart hread
    rw [Draft.finish, Outcome.map_eq_error_iff] at h
    have harises := Draft.arises_of_closeNode rfl hreached List.takeWhile_nil h
    rwa [List.append_nil] at harises

end Dialogue
