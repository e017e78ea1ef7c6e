import Dialogue.Proofs.Script.ChoiceText
import Dialogue.Proofs.Script.Coverage

/-!
# What lines leave open

The lines of a body that have been read so far may leave branches open, one inside the other, and a
choice, for which the next line may be. Both can be told from the lines themselves: `openers` goes
down the lines and keeps the openers of the branches that are still open, the innermost one first,
and `UnderEntry` says that the last lines are an entry and the commands under it.

The reader knows them as pieces of a draft. That the pieces are the ones told by the lines follows
from the roles that the lines have (`BodyDraft.SoFar`): a piece that is closed lies on lines between
which nothing is left open (`Laid.foldl_nest`).
-/

namespace Dialogue

/-- The span of a line that is given with its number. -/
def spanOf (line : String × Nat) : Span := lineSpan line.2 line.1.toList

/-! ## Open branches -/

/-- The openers of the branches that are open behind a line, by those that are open before it. -/
def nestLine (outer : List (String × Nat)) (line : String × Nat) : List (String × Nat) :=
  match commandBody? line.1.toList with
  | none => outer
  | some body =>
    if (ifCondition? body).isSome then line :: outer
    else if isEndif body then outer.tail
    else outer

/-- The openers of the branches that the lines of a body leave open, the innermost one first. -/
def openers (lines : List (String × Nat)) : List (String × Nat) := lines.foldl nestLine []

/-- The spans of the branches that are open behind a line of the role. -/
def Role.nest (spans : List Span) : Role → List Span
  | .opener _ span => span :: spans
  | .close => spans.tail
  | _ => spans

/-! ### By the roles of the lines -/

theorem Entry.foldl_nest_roles (entries : List Entry) (spans : List Span) :
    (entries.flatMap roles).foldl Role.nest spans = spans := by
  have hcommands : ∀ commands : List Command,
      (commands.map Role.option).foldl Role.nest spans = spans := by
    intro commands
    induction commands with
    | nil => rfl
    | cons c commands ih => exact ih
  induction entries with
  | nil => rfl
  | cons e entries ih =>
    rw [List.flatMap_cons, List.foldl_append]
    show (entries.flatMap roles).foldl Role.nest
      ((e.commands.map Role.option).foldl Role.nest spans) = spans
    rw [hcommands, ih]

/-- Steps that are finished leave no branch open. -/
theorem Laid.foldl_nest {arm : Option Arm} {steps : List Step} {roles : List Role}
    (h : Laid arm steps roles) (spans : List Span) : roles.foldl Role.nest spans = spans := by
  induction h generalizing spans with
  | nil => rfl
  | blank _ ih => exact ih spans
  | fence _ ih => exact ih spans
  | turn _ ih => exact ih spans
  | line text span _ ih => exact ih spans
  | command c span _ ih => exact ih spans
  | choice first more timeLimit _ ih =>
    rw [List.foldl_append, Entry.foldl_nest_roles, ih]
  | @branch _ _ _ roles thenRoles condition span _ _ ihthen ih =>
    -- The close takes off again what the opener has put on.
    rw [List.foldl_append]
    show roles.foldl Role.nest (thenRoles.foldl Role.nest (span :: spans)).tail = spans
    rw [ihthen, List.tail_cons, ih]
  | @branchElse _ _ _ _ roles thenRoles elseRoles condition span _ _ _ ihthen ihelse ih =>
    rw [List.foldl_append, List.foldl_append]
    show roles.foldl Role.nest
      (elseRoles.foldl Role.nest (thenRoles.foldl Role.nest (span :: spans))).tail = spans
    rw [ihthen, ihelse, List.tail_cons, ih]

theorem BranchDraft.SoFar.foldl_nest {top : BranchDraft} {roles : List Role} (h : top.SoFar roles)
    (spans : List Span) : roles.foldl Role.nest spans = top.span :: spans := by
  cases h with
  | inThen hthen => exact hthen.foldl_nest _
  | @inElse _ span _ _ thenRoles elseRoles hthen helse =>
    rw [List.foldl_append]
    show elseRoles.foldl Role.nest (thenRoles.foldl Role.nest (span :: spans)) = span :: spans
    rw [hthen.foldl_nest, helse.foldl_nest]

theorem OpenSoFar.foldl_nest {steps : List Step} {branches : List BranchDraft} {roles : List Role}
    (h : OpenSoFar steps branches roles) :
    roles.foldl Role.nest [] = branches.map BranchDraft.span := by
  induction h with
  | node hsteps => exact hsteps.foldl_nest []
  | inBranch _ htop ih => rw [List.foldl_append, ih, htop.foldl_nest, List.map_cons]

/-- The open branches of a body are those that the roles of its lines leave open. -/
theorem BodyDraft.SoFar.foldl_nest {b : BodyDraft} {roles : List Role} (h : b.SoFar roles) :
    roles.foldl Role.nest [] = b.branches.map BranchDraft.span := by
  rw [SoFar] at h
  split at h
  · exact h.foldl_nest
  · obtain ⟨before, own, hopen, hown, rfl⟩ := h
    rw [List.foldl_append, hopen.foldl_nest, hown.roles_eq, Entry.foldl_nest_roles]

/-! ### By the lines -/

/-- A line with an arrow has nothing but blanks in front of it. -/
theorem arrow?_eq_some {line before rest : List Char} (h : arrow? line = some (before, rest)) :
    (∀ c ∈ before, Text.isBlank c = true) ∧ line = before ++ '-' :: '>' :: rest := by
  rw [arrow?] at h
  split at h
  · next more hmore =>
    cases h
    refine ⟨List.all_eq_true.mp List.all_takeWhile, ?_⟩
    rw [← hmore, List.takeWhile_append_dropWhile]
  · cases h

theorem length_of_arrow? {line : String} {before rest : List Char}
    (h : arrow? line.toList = some (before, rest)) :
    before.length + 2 + rest.length = line.length := by
  rw [← String.length_toList, (arrow?_eq_some h).2, List.length_append]
  simp only [List.length_cons]
  omega

/-- It is no command line. -/
theorem commandBody?_of_arrow? {line before rest : List Char}
    (h : arrow? line = some (before, rest)) : commandBody? line = none := by
  obtain ⟨hbefore, rfl⟩ := arrow?_eq_some h
  rw [commandBody?, Text.trim_blanks_append hbefore, Text.trim_cons (by decide),
    Text.trimEnd_cons (by decide)]
  rfl

/-- A word that does not start with `if` opens no branch. -/
theorem ifCondition?_of_word {body word : List Char} (h : Text.sameIgnoringCase body word = true)
    (hword : Text.sameIgnoringCase (word.take 2) ['i', 'f'] = false) :
    ifCondition? body = none := by
  have hstart : Text.sameIgnoringCase (body.take 2) ['i', 'f'] = false := by
    have hlower := congrArg (List.take 2) (eq_of_beq h)
    rw [← List.map_take, ← List.map_take] at hlower
    rw [Text.sameIgnoringCase, hlower]
    exact hword
  rw [ifCondition?, hstart]
  rfl

theorem not_isEndif_of_isElse {body : List Char} (h : isElse body = true) :
    isEndif body = false := by
  rw [Bool.eq_false_iff]
  intro hendif
  have hlength : body.length = 5 := Text.length_eq_of_sameIgnoringCase hendif
  have hlength' : body.length = 4 := Text.length_eq_of_sameIgnoringCase h
  omega

/-- The word that closes a branch is no command. -/
theorem not_isEndif_of_ofText {body : List Char} {c : Command} (h : Command.ofText body = .ok c) :
    isEndif body = false := by
  rw [Bool.eq_false_iff]
  intro hendif
  have hlength : body.length = 5 := Text.length_eq_of_sameIgnoringCase hendif
  have hletters : ∀ c ∈ body, Text.isBlank c = false := fun c hc =>
    Text.not_blank_of_sameIgnoringCase hendif (by decide) hc
  have htrim : Text.trim body = body := by
    refine Text.trim_eq_self_iff.2 ⟨?_, ?_⟩
    · exact fun c hc => hletters c (List.mem_of_mem_head? hc)
    · exact fun c hc => hletters c (List.mem_of_mem_getLast? hc)
  have hword : body.takeWhile (fun c => !Text.isBlank c) = body :=
    List.takeWhile_eq_self_iff.mpr fun c hc => by rw [hletters c hc]; rfl
  -- The first word is the whole of the five letters, and neither keyword has as many.
  rw [Command.ofText, htrim, hword] at h
  split at h
  · next hjump => exact absurd (Text.length_eq_of_sameIgnoringCase hjump) (by simp [hlength])
  · split at h
    · next hset => exact absurd (Text.length_eq_of_sameIgnoringCase hset) (by simp [hlength])
    · cases h

/-- A line opens and closes what its role says. -/
theorem Role.FitsLine.nestLine_eq {line : String × Nat} {role : Role} (h : role.FitsLine line)
    (outer : List (String × Nat)) :
    (nestLine outer line).map spanOf = role.nest (outer.map spanOf) := by
  rw [FitsLine] at h
  rw [nestLine]
  cases h with
  | spoken _ _ hbody => rw [hbody]; rfl
  | command hbody hcondition hc =>
    simp only [hbody, hcondition, not_isEndif_of_ofText hc]
    rfl
  | opener hbody hcondition =>
    simp only [hbody, hcondition]
    rfl
  | entry harrow _ =>
    rw [commandBody?_of_arrow? harrow]
    rfl
  | option _ hbody hcondition hc =>
    simp only [hbody, hcondition, not_isEndif_of_ofText hc]
    rfl
  | turn hbody helse =>
    simp only [hbody, ifCondition?_of_word helse (by decide), not_isEndif_of_isElse helse]
    rfl
  | close hbody hendif =>
    simp only [hbody, ifCondition?_of_word hendif (by decide), hendif]
    exact List.map_tail
  | blank hblank =>
    simp only [commandBody?, hblank]
    rfl
  | fence hfence =>
    simp only [commandBody?, eq_of_beq hfence]
    rfl

theorem foldl_nestLine_eq {lines : List (String × Nat)} {roles : List Role}
    (h : List.Forall₂ Role.FitsLine lines roles) (outer : List (String × Nat)) :
    (lines.foldl nestLine outer).map spanOf = roles.foldl Role.nest (outer.map spanOf) := by
  induction h generalizing outer with
  | nil => rfl
  | cons hline _ ih => rw [List.foldl_cons, List.foldl_cons, ← hline.nestLine_eq, ih]

/-- **The open branches are told by the lines.** Those of a body are the branches that the lines
read into it leave open, and each is remembered by the span of its opener. -/
theorem BodyDraft.SoFar.spans_branches {b : BodyDraft} {lines : List (String × Nat)}
    {roles : List Role} (h : b.SoFar roles) (hfits : List.Forall₂ Role.FitsLine lines roles) :
    b.branches.map BranchDraft.span = (openers lines).map spanOf := by
  rw [← h.foldl_nest, openers, foldl_nestLine_eq hfits]
  rfl

/-! ## Open choices -/

/-- The last of the lines are an entry and the commands under it. -/
def UnderEntry (lines : List (String × Nat)) : Prop :=
  ∃ above entry commands, lines = above ++ entry :: commands ∧
    (arrow? entry.1.toList).isSome ∧
    ∀ line ∈ commands, isIndented line.1.toList = true ∧ (commandBody? line.1.toList).isSome

theorem UnderEntry.below {lines : List (String × Nat)} (h : UnderEntry lines)
    (above : List (String × Nat)) : UnderEntry (above ++ lines) := by
  obtain ⟨before, entry, commands, rfl, hentry, hcommands⟩ := h
  exact ⟨above ++ before, entry, commands, (List.append_assoc ..).symm, hentry, hcommands⟩

/-- A choice is open for lines under an entry only. -/
theorem BodyDraft.SoFar.underEntry {b : BodyDraft} {c : ChoiceDraft} {lines : List (String × Nat)}
    {roles : List Role} (h : b.SoFar roles) (hchoice : b.choice = some c)
    (hfits : List.Forall₂ Role.FitsLine lines roles) : UnderEntry lines := by
  rw [SoFar, hchoice] at h
  obtain ⟨before, own, -, ⟨rfl, hfirst⟩, rfl⟩ := h
  obtain ⟨span, entries, timeLimit⟩ := c
  cases entries with
  | nil => cases hfirst
  | cons last earlier =>
    obtain ⟨text, condition, run, place⟩ := last
    have hroles : before ++ (⟨text, condition, run, place⟩ :: earlier).reverse.flatMap Entry.roles =
        (before ++ earlier.reverse.flatMap Entry.roles) ++
          Role.entry text condition place :: run.map Role.option := by
      simp [Entry.roles]
    rw [hroles] at hfits
    have hdrop := List.forall₂_drop_append _ _ _ hfits
    rw [List.forall₂_cons_right_iff] at hdrop
    obtain ⟨entry, commands, hentry, hcommands, hsplit⟩ := hdrop
    refine ⟨_, entry, commands, (List.take_append_drop _ lines).symm.trans (by rw [hsplit]), ?_, ?_⟩
    · cases hentry with
      | entry harrow _ =>
        rw [harrow]
        rfl
    · intro line hline
      obtain ⟨role, hrole, hfits⟩ := exists_of_forall₂ hcommands.flip hline
      obtain ⟨command, -, rfl⟩ := List.mem_map.mp hrole
      cases hfits with
      | option hindented hbody _ _ =>
        rw [hbody]
        exact ⟨hindented, rfl⟩

end Dialogue
