import Dialogue.Proofs.Runner.Timeout
import Dialogue.Script.Check

/-!
# Well-formed graphs

What a runner of a graph relies on without asking. A graph is well-formed when its nodes stand under
their names, the names and conditions in it are filled (`Filled`: they hold something, and no blank
at the ends), and its choices are well-formed: there is something to choose, the first option is the
default, and the time limit is the shortest of the times in the lines of the entries
(`Choice.WellFormed`). These lines have to be given, since a choice does not keep the times of its
entries.

Every graph that is read from a script is well-formed (`Graph.wellFormed_of_ofText`). All but the
names of nodes is a law of the steps, one about the constructors of `Step.ComesFrom`; a node has its
name from a title line, and an empty title would not have been read.
-/

namespace Dialogue

/-! ## Filled texts -/

/-- The text holds something and has no blank at its ends. -/
structure Filled (text : String) : Prop where
  ne_empty : text ≠ ""
  trimmed : Text.Trimmed text.toList

/-- What trimming leaves is filled if anything is left. -/
theorem filled_trim {cs : List Char} (h : Text.trim cs ≠ []) :
    Filled (String.ofList (Text.trim cs)) := by
  constructor
  · intro hempty
    rw [← String.toList_eq_nil_iff, String.toList_ofList] at hempty
    exact h hempty
  · rw [String.toList_ofList]
    exact Text.trim_trim cs

/-- The name in a command: the target of a jump, or the variable that is set. -/
def Command.name : Command → String
  | .jump target => target
  | .set name _ => name

theorem Command.filled_of_ofText {cs : List Char} {c : Command} (h : ofText cs = .ok c) :
    Filled c.name := by
  rw [ofText] at h
  split at h
  · rw [readJump] at h
    split at h
    · cases h
    · next hne =>
      cases h
      exact filled_trim hne
  · split at h
    · rw [readSet.eq_def] at h
      split at h
      · cases h
      · dsimp only at h
        split at h
        · cases h
        · next hne =>
          cases h
          exact filled_trim hne
    · cases h

theorem trimmed_ifCondition? {body condition : List Char}
    (h : ifCondition? body = some condition) : Text.Trimmed condition := by
  rw [ifCondition?] at h
  split at h
  · split at h
    · cases h
      exact Text.trim_nil
    · split at h
      · cases h
      · cases h
        exact Text.trim_trim _
  · cases h

/-! ## Entries -/

/-- Something is cut out of a text exactly when it has the tag. -/
theorem Tag.isSome_of_cut {t : Tag} {cs left : List Char} {inner : Option (List Char)}
    (h : t.cut cs = .ok (left, inner)) : inner.isSome = (t.find? cs).isSome := by
  rw [cut] at h
  split at h
  · next hnone =>
    cases h
    rw [hnone]
    rfl
  · next before rest hsome =>
    split at h
    · cases h
    · cases h
      rw [hsome]
      rfl

namespace EntryText

theorem filled_of_ofText {cs : List Char} {e : EntryText} (h : ofText cs = .ok e) :
    ∀ condition ∈ e.condition, Filled (String.ofList condition) := by
  intro condition hcondition
  obtain ⟨inner, rfl, hne⟩ := exists_trim_of_ofText h condition hcondition
  exact filled_trim hne

/-- What a `time` tag holds is read as a finite number, and without the tag there is none. -/
theorem of_readSeconds {inner : Option (List Char)} {seconds : Option Float}
    (h : readSeconds inner = .ok seconds) :
    seconds.isSome = inner.isSome ∧ ∀ x ∈ seconds, x.isFinite = true := by
  rw [readSeconds.eq_def] at h
  split at h
  · cases h
    refine ⟨rfl, fun x hx => ?_⟩
    cases hx
  · dsimp only at h
    split at h
    · cases h
    · next number hnumber =>
      split at h
      · cases h
        refine ⟨rfl, fun x hx => ?_⟩
        cases hx
        rw [readNumber?] at hnumber
        split at hnumber
        · cases hnumber
        · split at hnumber
          · next hfinite =>
            cases hnumber
            exact hfinite
          · cases hnumber
      · cases h

theorem isFinite_of_ofText {cs : List Char} {e : EntryText} (h : ofText cs = .ok e) :
    ∀ x ∈ e.seconds, x.isFinite = true := by
  obtain ⟨afterIf, afterTime, inner, inner', -, -, -, -, hseconds⟩ := ofText_eq_ok h
  exact (of_readSeconds hseconds).2

/-- What is left of the text of an entry without its `if` tag has a `time` tag. -/
def HasTimeTag (cs : List Char) : Prop :=
  ∃ left condition, Tag.condition.cut cs = .ok (left, condition) ∧
    (Tag.time.find? left).isSome = true

/-- An entry has seconds exactly when there is a `time` tag in its text. -/
theorem isSome_seconds_iff {cs : List Char} {e : EntryText} (h : ofText cs = .ok e) :
    e.seconds.isSome = true ↔ HasTimeTag cs := by
  obtain ⟨afterIf, afterTime, inner, inner', hcutIf, hcutTime, -, -, hseconds⟩ := ofText_eq_ok h
  rw [(of_readSeconds hseconds).1, Tag.isSome_of_cut hcutTime]
  constructor
  · intro hsome
    exact ⟨afterIf, inner, hcutIf, hsome⟩
  · rintro ⟨left, condition, hcut, hsome⟩
    cases hcutIf.symm.trans hcut
    exact hsome

/-- The seconds in the `time` tag of the text of an entry. -/
def taggedSeconds? (cs : List Char) : Option Float := (ofText cs).toOption.bind seconds

variable {behind : List (List Char)} {texts : List EntryText}

/-- The times of entries are those in the tags of their texts. -/
theorem filterMap_taggedSeconds?
    (h : List.Forall₂ (fun cs text => ofText cs = .ok text) behind texts) :
    behind.filterMap taggedSeconds? = texts.filterMap seconds := by
  induction h with
  | nil => rfl
  | @cons cs text _ _ htext _ ih =>
    have hseconds : taggedSeconds? cs = text.seconds := by
      rw [taggedSeconds?, htext]
      rfl
    rw [List.filterMap_cons, List.filterMap_cons, hseconds, ih]

theorem forall_not_hasTimeTag_iff
    (h : List.Forall₂ (fun cs text => ofText cs = .ok text) behind texts) :
    (∀ cs ∈ behind, ¬ HasTimeTag cs) ↔ ∀ text ∈ texts, text.seconds = none := by
  induction h with
  | nil => simp
  | cons htext _ ih =>
    rw [List.forall_mem_cons, List.forall_mem_cons, ih, ← isSome_seconds_iff htext,
      Option.not_isSome_iff_eq_none]

end EntryText

/-! ## Time limits -/

namespace ChoiceDraft

variable {limit seconds : Option Float}

theorem shorter_eq_none_iff : shorter limit seconds = none ↔ limit = none ∧ seconds = none := by
  cases limit <;> cases seconds <;> simp [shorter]

theorem mem_or_mem_of_shorter {x : Float} (h : x ∈ shorter limit seconds) :
    x ∈ limit ∨ x ∈ seconds := by
  cases limit with
  | none => exact .inr h
  | some y =>
    cases seconds with
    | none => exact .inl h
    | some z =>
      cases h
      split
      · exact .inl rfl
      · exact .inr rfl

/-- The shorter of two times is no longer than either of them. -/
theorem shorter_le {x : Float} (hlimit : ∀ y ∈ limit, IsTime y) (hseconds : ∀ z ∈ seconds, IsTime z)
    (h : x ∈ shorter limit seconds) : (∀ y ∈ limit, x ≤ y) ∧ ∀ z ∈ seconds, x ≤ z := by
  have hself : ∀ {y : Float}, IsTime y → y ≤ y := fun hy => Decimal.le_refl hy.isNumber
  cases limit with
  | none =>
    refine ⟨fun y hy => (nomatch hy), fun z hz => ?_⟩
    cases hz
    cases h
    exact hself (hseconds _ rfl)
  | some y =>
    have hy := hlimit y rfl
    cases seconds with
    | none =>
      refine ⟨fun y' hy' => ?_, fun z hz => (nomatch hz)⟩
      cases hy'
      cases h
      exact hself hy
    | some z =>
      have hz := hseconds z rfl
      cases h
      simp only [Option.mem_some_iff, forall_eq']
      split
      · next hlt => exact ⟨hself hy, Decimal.le_of_lt hlt⟩
      · next hle => exact ⟨Decimal.le_of_not_lt hy.isNumber hz.isNumber hle, hself hz⟩

end ChoiceDraft

namespace EntryText

variable {texts : List EntryText}

theorem timeLimit_eq_none_iff :
    timeLimit texts = none ↔ ∀ text ∈ texts, text.seconds = none := by
  induction texts using List.reverseRecOn with
  | nil => simp [timeLimit]
  | append_singleton texts text ih =>
    rw [timeLimit_append, ChoiceDraft.shorter_eq_none_iff, ih]
    simp only [List.forall_mem_append, List.forall_mem_singleton]

theorem exists_of_mem_timeLimit {x : Float} (h : x ∈ timeLimit texts) :
    ∃ text ∈ texts, x ∈ text.seconds := by
  induction texts using List.reverseRecOn with
  | nil => cases h
  | append_singleton texts text ih =>
    rw [timeLimit_append] at h
    rcases ChoiceDraft.mem_or_mem_of_shorter h with h | h
    · obtain ⟨text', htext', hx⟩ := ih h
      exact ⟨text', List.mem_append_left _ htext', hx⟩
    · exact ⟨text, List.mem_append_right _ List.mem_cons_self, h⟩

/-- The time limit is no longer than any of the times. -/
theorem timeLimit_le {x : Float} (htimes : ∀ text ∈ texts, ∀ y ∈ text.seconds, IsTime y)
    (h : x ∈ timeLimit texts) : ∀ text ∈ texts, ∀ y ∈ text.seconds, x ≤ y := by
  induction texts using List.reverseRecOn generalizing x with
  | nil => exact fun text htext => nomatch htext
  | append_singleton texts text ih =>
    obtain ⟨htexts, htext⟩ := List.forall_mem_append.mp htimes
    rw [List.forall_mem_singleton] at htext
    rw [timeLimit_append] at h
    obtain ⟨hle, hlast⟩ := ChoiceDraft.shorter_le (isTime_timeLimit htexts) htext h
    rw [List.forall_mem_append, List.forall_mem_singleton]
    refine ⟨fun text' htext' y hy => ?_, hlast⟩
    -- The limit of the texts before the last one is there, since one of them gives a time.
    cases hlimit : timeLimit texts with
    | none =>
      rw [timeLimit_eq_none_iff.mp hlimit text' htext'] at hy
      cases hy
    | some z => exact Decimal.le_trans (hle z hlimit) (ih htexts hlimit text' htext' y hy)

end EntryText

/-! ## Choices -/

/-- The entry has been read from the text behind the arrow of one of the lines. -/
structure Entry.StandsOn (lines : List (String × Nat)) (behind : List Char) (e : Entry) : Prop where
  line : ∃ line ∈ lines, ∃ before, arrow? line.1.toList = some (before, behind) ∧
    e.span = lineSpan line.2 line.1.toList
  text : ∃ text, EntryText.ofText behind = .ok text ∧ e.text = String.ofList text.label ∧
    e.condition = text.condition.map String.ofList

/-- There is something to choose, the first option is the default, conditions are filled, and the
time limit is the shortest of the times in the lines of the entries; without a `time` tag in them
there is none. -/
structure Choice.WellFormed (lines : List (String × Nat)) (c : Choice) : Prop where
  entries : c.entries ≠ []
  default : c.defaultOption = 0
  conditions : ∀ e ∈ c.entries, ∀ condition ∈ e.condition, Filled condition
  timed : ∃ behind, List.Forall₂ (Entry.StandsOn lines) behind c.entries ∧
    (c.timeLimit = none ↔ ∀ cs ∈ behind, ¬ EntryText.HasTimeTag cs) ∧
    ∀ limit ∈ c.timeLimit, limit ∈ behind.filterMap EntryText.taggedSeconds? ∧
      ∀ x ∈ behind.filterMap EntryText.taggedSeconds?, limit ≤ x
  limit : ∀ limit ∈ c.timeLimit, limit.isFinite = true ∧ 0 ≤ limit

variable {lines : List (String × Nat)} {texts : List EntryText}

/-- Entries that come from lines stand on some of them. -/
theorem Entry.exists_standsOn {entries : List Entry}
    (h : List.Forall₂ (Entry.ComesFrom lines) texts entries) :
    ∃ behind, List.Forall₂ (Entry.StandsOn lines) behind entries ∧
      List.Forall₂ (fun cs text => EntryText.ofText cs = .ok text) behind texts := by
  induction h with
  | nil => exact ⟨[], .nil, .nil⟩
  | @cons text e texts entries he _ ih =>
    obtain ⟨behind, hstands, hread⟩ := ih
    obtain ⟨line, hline, before, rest, harrow, htext, hspan⟩ := he.line
    refine ⟨rest :: behind, .cons ⟨?_, ?_⟩ hstands, .cons htext hread⟩
    · exact ⟨line, hline, before, harrow, hspan⟩
    · exact ⟨text, htext, he.label, he.condition⟩

theorem Choice.ComesFrom.wellFormed {c : Choice} (h : c.ComesFrom lines texts) :
    c.WellFormed lines := by
  obtain ⟨behind, hstands, hread⟩ := Entry.exists_standsOn h.entries
  have htexts : ∀ text ∈ texts, ∃ cs, EntryText.ofText cs = .ok text := by
    intro text htext
    obtain ⟨cs, -, hcs⟩ := exists_of_forall₂ hread htext
    exact ⟨cs, hcs⟩
  constructor
  case entries =>
    intro hnil
    have hentries := h.entries
    rw [hnil, List.forall₂_nil_right_iff] at hentries
    exact h.texts_ne_nil hentries
  case default => exact h.default
  case conditions =>
    intro e he condition hcondition
    obtain ⟨text, htext, hentry⟩ := exists_of_forall₂ h.entries he
    obtain ⟨cs, hcs⟩ := htexts text htext
    rw [hentry.condition] at hcondition
    obtain ⟨own, hown, rfl⟩ := Option.map_eq_some_iff.mp hcondition
    exact EntryText.filled_of_ofText hcs own hown
  case timed =>
    refine ⟨behind, hstands, ?_, ?_⟩
    · rw [h.timeLimit, EntryText.timeLimit_eq_none_iff, EntryText.forall_not_hasTimeTag_iff hread]
    · rw [h.timeLimit, EntryText.filterMap_taggedSeconds? hread]
      intro limit hlimit
      refine ⟨List.mem_filterMap.mpr (EntryText.exists_of_mem_timeLimit hlimit), fun x hx => ?_⟩
      obtain ⟨text, htext, hx⟩ := List.mem_filterMap.mp hx
      refine EntryText.timeLimit_le (fun text htext => ?_) hlimit text htext x hx
      obtain ⟨cs, hcs⟩ := htexts text htext
      exact EntryText.isTime_of_ofText hcs
  case limit =>
    intro limit hlimit
    refine ⟨?_, (h.isTime limit hlimit).nonneg⟩
    rw [h.timeLimit] at hlimit
    obtain ⟨text, htext, hx⟩ := EntryText.exists_of_mem_timeLimit hlimit
    obtain ⟨cs, hcs⟩ := htexts text htext
    exact EntryText.isFinite_of_ofText hcs limit hx

/-! ## Names of nodes -/

/-- In lines that can be read no title is empty. -/
theorem Draft.title_ne_nil_of_readLines {d d' : Draft} {number : Nat} {texts : List String}
    (h : d.readLines number texts = .ok d') {text : String} (htext : text ∈ texts)
    {name : List Char} (htitle : titleName? (Text.trim text.toList) = some name) : name ≠ [] := by
  induction texts generalizing d number with
  | nil => cases htext
  | cons first rest ih =>
    rw [readLines] at h
    split at h
    · cases h
    · next next hline =>
      rcases List.mem_cons.mp htext with rfl | htext
      · rw [readLine_eq_readTitle htitle, readTitle] at hline
        split at hline
        · cases hline
        · split at hline
          · cases hline
          · next hne => exact hne
      · exact ih h htext

theorem exists_title_of_mem_sections {lines : List (String × Nat)} {s : Section}
    (h : s ∈ sections lines) : ∃ line ∈ lines, ∃ name,
      titleName? (Text.trim line.1.toList) = some name ∧ s.name = String.ofList name := by
  induction lines with
  | nil => cases h
  | cons line rest ih =>
    obtain ⟨text, number⟩ := line
    rw [sections] at h
    have hbelow : s ∈ sections rest → ∃ line ∈ (text, number) :: rest, ∃ name,
        titleName? (Text.trim line.1.toList) = some name ∧ s.name = String.ofList name := by
      intro hs
      obtain ⟨line, hline, hname⟩ := ih hs
      exact ⟨line, List.mem_cons_of_mem _ hline, hname⟩
    split at h
    · next name htitle =>
      rcases List.mem_cons.mp h with rfl | h
      · exact ⟨(text, number), List.mem_cons_self, name, htitle, rfl⟩
      · exact hbelow h
    · exact hbelow h

theorem trim_titleName? {trimmed name : List Char} (h : titleName? trimmed = some name) :
    Text.trim name = name := by
  rw [titleName?] at h
  split at h
  · cases h
    exact Text.trim_trim _
  · cases h

namespace Graph

variable {g : Graph} {name text : String}

theorem filled_name_of_ofText (h : ofText name text = .ok g) {n : Node} (hn : n ∈ g.toList) :
    Filled n.name := by
  obtain ⟨d, hread, -⟩ := exists_draft_of_ofText h
  obtain ⟨nodes, rfl, hnodes⟩ := exists_liesOn_of_ofText h
  obtain ⟨s, hs, hlies⟩ := exists_of_forall₂ hnodes.flip (mem_of_mem_ofNodes hn)
  obtain ⟨line, hline, title, htitle, hname⟩ := exists_title_of_mem_sections hs
  have hne := Draft.title_ne_nil_of_readLines hread (List.fst_mem_of_mem_zipIdx hline) htitle
  rw [← trim_titleName? htitle] at hname hne
  rw [hlies.name, hname]
  exact filled_trim hne

/-! ## Graphs -/

/-- Nodes stand under their folded names, names are filled and conditions trimmed, and choices are
well-formed. -/
structure WellFormed (lines : List (String × Nat)) (g : Graph) : Prop where
  keyed : g.WellKeyed
  names : ∀ n ∈ g.toList, Filled n.name
  commands : ∀ step, g.Holds step → ∀ c ∈ step.commands, Filled c.name
  choices : ∀ c, g.Holds (.choice c) → c.WellFormed lines
  branches : ∀ condition thenSteps elseSteps span,
    g.Holds (.branch condition thenSteps elseSteps span) → Text.Trimmed condition.toList

/-- A well-keyed graph lists its names in the order of their folded forms, and none twice. -/
theorem WellKeyed.pairwise_names (h : g.WellKeyed) :
    g.names.Pairwise fun a b => foldName a < foldName b := by
  rw [names, toList, NameTable.values, List.map_map, List.pairwise_map]
  refine g.nodes.increasing.imp_of_mem fun {a b} ha hb hlt => ?_
  rw [h a ha, h b hb] at hlt
  exact hlt

/-- **Every graph that is read from a script is well-formed**, and a check of the script lists its
names in the order of their folded forms. -/
theorem wellFormed_of_ofText (h : ofText name text = .ok g) :
    g.WellFormed (Source.ofText name text).numbered ∧
      Check.ofText name text = ⟨true, g.names, none⟩ ∧
      g.names.Pairwise fun a b => foldName a < foldName b := by
  have hcomes := comesFrom_of_ofText h
  have hkeyed := wellKeyed_of_ofText h
  refine ⟨?_, by rw [Check.ofText, h], hkeyed.pairwise_names⟩
  constructor
  case keyed => exact hkeyed
  case names => exact fun n hn => filled_name_of_ofText h hn
  case commands =>
    intro step hstep c hc
    cases hcomes.of_holds hstep with
    | line _ _ _ _ => cases hc
    | command _ hfits =>
      cases List.mem_singleton.mp hc
      cases hfits with
      | command _ _ hread => exact Command.filled_of_ofText hread
    | choice hchoice =>
      obtain ⟨e, he, hc⟩ := List.mem_flatMap.mp hc
      obtain ⟨text, -, hentry⟩ := exists_of_forall₂ hchoice.entries he
      obtain ⟨line, -, hfits⟩ := hentry.commands c hc
      cases hfits with
      | option _ _ _ hread => exact Command.filled_of_ofText hread
    | branch _ _ _ _ => cases hc
  case choices =>
    intro c hc
    cases hcomes.of_holds hc with
    | choice hchoice => exact hchoice.wellFormed
  case branches =>
    intro condition thenSteps elseSteps span hbranch
    cases hcomes.of_holds hbranch with
    | branch _ hfits _ _ =>
      cases hfits with
      | opener _ hcondition =>
        rw [String.toList_ofList]
        exact trimmed_ifCondition? hcondition

end Graph

/-- A script with a choice in a branch, whose shortest time is not that of its first entry. -/
def bridgeScript : String :=
  "Title: Bridge\n---\n<<if brave >>\n-> Jump [time 4]\n\t<<set n = 1>>\n" ++
    "-> Wait [time 2] [if !ill ]\n<<endif>>\n===\ntitle: Camp"

theorem Graph.wellFormed_of_ofText_bridgeScript :
    ∃ g, ofText "bridge" bridgeScript = .ok g ∧
      g.WellFormed (Source.ofText "bridge" bridgeScript).numbered ∧
      Check.ofText "bridge" bridgeScript = ⟨true, ["Bridge", "Camp"], none⟩ ∧
      ["Bridge", "Camp"].Pairwise (fun a b => foldName a < foldName b) := by
  have hread : (ofText "bridge" bridgeScript).toOption.map Graph.names =
      some ["Bridge", "Camp"] := by
    decide +kernel
  cases hg : ofText "bridge" bridgeScript with
  | error r =>
    rw [hg] at hread
    cases hread
  | ok g =>
    rw [hg] at hread
    obtain ⟨hformed, hcheck, hnames⟩ := wellFormed_of_ofText hg
    have hlist : g.names = ["Bridge", "Camp"] := Option.some.inj hread
    rw [hlist] at hcheck hnames
    exact ⟨g, rfl, hformed, hcheck, hnames⟩

end Dialogue
