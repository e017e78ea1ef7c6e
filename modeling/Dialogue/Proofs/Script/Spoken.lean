import Dialogue.Proofs.Graph.Conditions
import Dialogue.Proofs.Script.Provenance

/-!
# Lines of dialogue hold no structure

What the reader takes for a line of dialogue looks like nothing else that it could read: it is not
blank, frames no node, and is neither an entry nor a command (`Text.Spoken`). Three loops filter the
lines before they come to this: the one over nodes, the one over the arms of a branch and the one
over the entries of a choice. They agree in all but one point. Outside of branches a fence is passed
over, and in an arm of a branch it is told as a line of dialogue.

So every line of a script is spoken, or is a fence in an arm of a branch, and in some scripts there
are such lines.
-/

namespace Dialogue

/-! ## Kinds of lines -/

/-- What does not start with an arrow behind its blanks is no entry. -/
theorem not_arrow_of_arrow?_eq_none {line : List Char} (h : arrow? line = none) :
    ¬ "->".toList <+: Text.trim line := by
  rintro ⟨rest, hrest⟩
  -- Trimming at the end keeps the start, so the arrow stands behind the leading blanks.
  obtain ⟨more, hmore⟩ := Text.trimEnd_isPrefix (Text.trimStart line)
  have hstart : line.dropWhile Text.isBlank = '-' :: '>' :: (rest ++ more) := by
    show Text.trimStart line = _
    rw [← hmore, ← Text.trim, ← hrest]
    rfl
  rw [arrow?, hstart] at h
  cases h

/-- A text between two pairs of angle brackets has them at its ends one after the other. -/
theorem not_wrapped_of_commandBody?_eq_none {line : List Char} (h : commandBody? line = none) :
    ¬ ("<<".toList <+: Text.trim line ∧ ">>".toList <:+ Text.trim line) := by
  rintro ⟨⟨cs, hopen⟩, ⟨ds, hclose⟩⟩
  have hsplit : ds ++ ['>', '>'] = '<' :: '<' :: cs := hclose.trans hopen.symm
  obtain ⟨body, rfl⟩ : ∃ body, ds = '<' :: '<' :: body := by
    cases ds with
    | nil => cases hsplit
    | cons c ds =>
      cases ds with
      | nil => cases hsplit
      | cons d body =>
        cases hsplit
        exact ⟨body, rfl⟩
  have hcs : cs = body ++ ['>', '>'] := by
    simp only [List.cons_append, List.cons.injEq, true_and] at hsplit
    exact hsplit.symm
  have htrim : Text.trim line = '<' :: '<' :: (body ++ ['>', '>']) := hclose.symm
  rw [commandBody?, htrim] at h
  simp at h

/-- A line that is read as nothing else is spoken, without the blanks behind it. -/
theorem Text.spoken_trimEnd {line : List Char} (hone : Text.OneLine line)
    (hblank : Text.trim line ≠ []) (hend : endsBody line = false)
    (hfence : isFence (Text.trim line) = false) (harrow : arrow? line = none)
    (hbody : commandBody? line = none) : Text.Spoken (Text.trimEnd line) := by
  obtain ⟨htitle, hclose⟩ := endsBody_eq_false_iff.mp hend
  constructor
  case oneLine => exact hone.of_subset (Text.trimEnd_isPrefix line).subset
  case noTrailingBlank => exact Text.trimEnd_trimEnd line
  all_goals rw [Text.trim_trimEnd]
  case notBlank => exact hblank
  case notFence => simpa [isFence] using hfence
  case notClose => simpa [isClose] using hclose
  case notTitle => simpa [titleName?] using htitle
  case notArrow => exact not_arrow_of_arrow?_eq_none harrow
  case notCommand => exact not_wrapped_of_commandBody?_eq_none hbody

/-! ## Scripts -/

/-- The numbered lines of a source that a text holds are of one line. -/
theorem Source.oneLine_of_mem_numbered {name text : String} {line : String × Nat}
    (h : line ∈ (Source.ofText name text).numbered) : Text.OneLine line.1.toList := by
  have hline : line.1 ∈ (Source.ofText name text).lines := List.fst_mem_of_mem_zipIdx h
  obtain ⟨cs, hcs, heq⟩ := List.mem_map.mp hline
  rw [← heq, String.toList_ofList]
  exact Text.oneLine_of_mem_splitLines hcs

/-- A text that is told as a fence: of one line, without blanks behind it, and nothing but the three
dashes in front of them. -/
structure Text.ToldFence (cs : List Char) : Prop where
  oneLine : OneLine cs
  noTrailingBlank : trimEnd cs = cs
  fence : trim cs = "---".toList

/-- A line of dialogue that comes from lines is spoken, or a fence in an arm of a branch. -/
theorem Step.ComesFrom.spoken {lines : List (String × Nat)} {inArm : Bool} {told : String}
    {span : Span} (hone : ∀ line ∈ lines, Text.OneLine line.1.toList)
    (h : (Step.line told span).ComesFrom lines inArm) :
    Text.Spoken told.toList ∨ Text.ToldFence told.toList ∧ inArm = true := by
  cases h with
  | @line _ line _ _ hline hfits hend hinner =>
    cases hfits with
    | spoken hblank harrow hbody =>
      rw [String.toList_ofList]
      cases hfence : isFence (Text.trim line.1.toList) with
      | false =>
        exact .inl (Text.spoken_trimEnd (hone line hline) hblank hend hfence harrow hbody)
      | true =>
        refine .inr ⟨⟨?_, ?_, ?_⟩, hinner hfence⟩
        · exact (hone line hline).of_subset (Text.trimEnd_isPrefix _).subset
        · exact Text.trimEnd_trimEnd _
        · rw [Text.trim_trimEnd]
          exact beq_iff_eq.mp hfence

/-- **Dialogue holds no structure, but for fences in branches.** In the graph of a script every line
among the steps of a node is spoken, and so is every line at any depth that is not a fence. -/
theorem Graph.spoken_of_ofText {name text : String} {g : Graph} (h : ofText name text = .ok g) :
    (∀ n ∈ g.toList, ∀ told span, .line told span ∈ n.steps → Text.Spoken told.toList) ∧
    ∀ told span, g.Holds (.line told span) →
      Text.Spoken told.toList ∨ Text.ToldFence told.toList := by
  have hcomes := comesFrom_of_ofText h
  have hone : ∀ line ∈ (Source.ofText name text).numbered, Text.OneLine line.1.toList :=
    fun _ => Source.oneLine_of_mem_numbered
  constructor
  · intro n hn told span hline
    rcases (hcomes n hn _ hline).spoken hone with hspoken | ⟨-, hinner⟩
    · exact hspoken
    · cases hinner
  · intro told span hline
    exact ((hcomes.of_holds hline).spoken hone).imp_right And.left

/-! ### A fence that is told -/

/-- The text of a line of dialogue. -/
def Step.told? : Step → Option String
  | .line text _ => some text
  | _ => none

theorem Step.told?_eq_some {s : Step} {told : String} (h : s.told? = some told) :
    ∃ span, s = .line told span := by
  cases s with
  | line text span =>
    cases h
    exact ⟨span, rfl⟩
  | _ => cases h

/-- A greeting, and a branch with a fence in it. -/
def fencedScript : String := "title: A\n---\nHello\n<<if x>>\n---\n<<endif>>\n==="

/-- What is told in it: the greeting outside of the branch, and the fence somewhere. -/
theorem told_fencedScript :
    ∃ g, Graph.ofText "inn" fencedScript = .ok g ∧
      (∃ n ∈ g.toList, ∃ span, .line "Hello" span ∈ n.steps) ∧
      ∃ span, g.Holds (.line "---" span) := by
  have hnodes : (Graph.ofText "inn" fencedScript).toOption.map
      (fun g => g.toList.flatMap fun n => n.steps.filterMap Step.told?) = some ["Hello"] := by
    decide +kernel
  have hall : (Graph.ofText "inn" fencedScript).toOption.map
      (fun g => g.allSteps.filterMap Step.told?) = some ["Hello", "---"] := by decide +kernel
  cases hg : Graph.ofText "inn" fencedScript with
  | error r =>
    rw [hg] at hall
    cases hall
  | ok g =>
    rw [hg] at hnodes hall
    have htop : (g.toList.flatMap fun n => n.steps.filterMap Step.told?) = ["Hello"] :=
      Option.some.inj hnodes
    have hany : g.allSteps.filterMap Step.told? = ["Hello", "---"] := Option.some.inj hall
    obtain ⟨n, hn, hhello⟩ := List.mem_flatMap.mp (htop ▸ List.mem_cons_self)
    obtain ⟨s, hs, htold⟩ := List.mem_filterMap.mp hhello
    obtain ⟨span, rfl⟩ := Step.told?_eq_some htold
    obtain ⟨s', hs', htold'⟩ :=
      List.mem_filterMap.mp (hany ▸ List.mem_cons_of_mem _ List.mem_cons_self)
    obtain ⟨span', rfl⟩ := Step.told?_eq_some htold'
    exact ⟨g, rfl, ⟨n, hn, span, hs⟩, span', Graph.mem_allSteps_iff.mp hs'⟩

theorem Graph.spoken_of_ofText_fencedScript :
    ∃ g, ofText "inn" fencedScript = .ok g ∧
      (∃ n ∈ g.toList, ∃ span, .line "Hello" span ∈ n.steps ∧ Text.Spoken "Hello".toList) ∧
      ∃ span, g.Holds (.line "---" span) ∧
        (Text.Spoken "---".toList ∨ Text.ToldFence "---".toList) := by
  obtain ⟨g, hg, ⟨n, hn, span, hhello⟩, span', hfence⟩ := told_fencedScript
  obtain ⟨htop, hany⟩ := spoken_of_ofText hg
  exact ⟨g, hg, ⟨n, hn, span, hhello, htop n hn _ span hhello⟩, span', hfence, hany _ span' hfence⟩

/-- **A fence in a branch is told.** A line of this script is not spoken. -/
theorem fence_told_in_branch :
    ∃ g, Graph.ofText "inn" fencedScript = .ok g ∧ ∃ told span, g.Holds (.line told span) ∧
      Text.trim told.toList = "---".toList ∧ ¬ Text.Spoken told.toList := by
  obtain ⟨g, hg, -, span, hfence⟩ := told_fencedScript
  refine ⟨g, hg, "---", span, hfence, by decide, ?_⟩
  intro hspoken
  exact hspoken.notFence (by decide)

end Dialogue
