import Dialogue.Proofs.Decimal.Comparison
import Dialogue.Proofs.Runner.Failure
import Dialogue.Proofs.Runner.Progress

/-!
# The countdowns of scripts

In a dialogue that is read from a script a countdown shows a time, which is a number and not
negative (`IsTime`), and when no time is left the first option on offer is taken.

Three stages have a share in it. A `time` tag is refused unless it holds such a number, and the
limit of a choice is the shortest of those that its entries give; a choice has an entry and its
default option is the first one (`Choice.ComesFrom`); and a tick takes from the countdown what it is
told to, negative numbers and what is no number counting as nothing, and stops at zero
(`isTime_timeLeft`). So all that can be said to a runner keeps the countdown a time
(`Scene.Timely`), whatever its ticks.
-/

namespace Dialogue

/-! ## Times -/

/-- The number can be the size of a time: it is one, and is not negative. -/
structure IsTime (x : Float) : Prop where
  isNumber : x.isNaN = false
  nonneg : 0 ≤ x

theorem isTime_of_nonneg {x : Float} (h : 0 ≤ x) : IsTime x := ⟨Decimal.isNumber_of_le h, h⟩

/-- Whatever a number is, its size of time is a time. -/
theorem isTime_atLeastZero (x : Float) : IsTime (atLeastZero x) := by
  rw [atLeastZero]
  split
  · next hpos => exact isTime_of_nonneg (Decimal.le_of_lt hpos)
  · exact isTime_of_nonneg (by decide)

theorem isTime_timeLeft (before seconds : Float) : IsTime (Scene.timeLeft before seconds) :=
  isTime_atLeastZero _

/-! ## Time limits -/

namespace EntryText

theorem isTime_of_readSeconds {inner : Option (List Char)} {seconds : Option Float}
    (h : readSeconds inner = .ok seconds) : ∀ x ∈ seconds, IsTime x := by
  intro x hx
  rw [readSeconds.eq_def] at h
  split at h
  · cases h
    cases hx
  · dsimp only at h
    split at h
    · cases h
    · split at h
      · next hnonneg =>
        cases h
        cases hx
        exact isTime_of_nonneg hnonneg
      · cases h

theorem isTime_of_ofText {cs : List Char} {e : EntryText} (h : ofText cs = .ok e) :
    ∀ x ∈ e.seconds, IsTime x := by
  obtain ⟨afterIf, afterTime, inner, inner', -, -, -, -, hseconds⟩ := ofText_eq_ok h
  exact isTime_of_readSeconds hseconds

end EntryText

theorem ChoiceDraft.isTime_shorter {limit seconds : Option Float} (hlimit : ∀ x ∈ limit, IsTime x)
    (hseconds : ∀ x ∈ seconds, IsTime x) : ∀ x ∈ shorter limit seconds, IsTime x := by
  cases limit with
  | none => exact hseconds
  | some x =>
    cases seconds with
    | none => exact hlimit
    | some y =>
      intro z hz
      cases hz
      split
      · exact hlimit x rfl
      · exact hseconds y rfl

/-- The shortest of some times is one of them. The texts are taken from the end, where the latest
one stands. -/
theorem EntryText.isTime_timeLimit {texts : List EntryText}
    (h : ∀ text ∈ texts, ∀ x ∈ text.seconds, IsTime x) : ∀ x ∈ timeLimit texts, IsTime x := by
  induction texts using List.reverseRecOn with
  | nil => exact fun x hx => nomatch hx
  | append_singleton texts text ih =>
    rw [timeLimit_append]
    apply ChoiceDraft.isTime_shorter
    · exact ih fun text htext => h text (List.mem_append_left _ htext)
    · exact h text (List.mem_append_right _ List.mem_cons_self)

theorem Choice.ComesFrom.isTime {lines : List (String × Nat)} {texts : List EntryText} {c : Choice}
    (h : c.ComesFrom lines texts) : ∀ x ∈ c.timeLimit, IsTime x := by
  rw [h.timeLimit]
  apply EntryText.isTime_timeLimit
  intro text htext
  obtain ⟨e, -, he⟩ := exists_of_forall₂ h.entries.flip htext
  obtain ⟨line, -, before, rest, -, hread, -⟩ := he.line
  exact EntryText.isTime_of_ofText hread

/-- **The time limits of a script are times.** -/
theorem Graph.isTime_of_ofText {name text : String} {g : Graph} (h : ofText name text = .ok g)
    {c : Choice} (hc : g.Holds (.choice c)) : ∀ x ∈ c.timeLimit, IsTime x := by
  cases (comesFrom_of_ofText h).of_holds hc with
  | choice hchoice => exact hchoice.isTime

/-! ## Timely scenes -/

namespace Scene

variable {g : Graph} {limit : UInt64} {s : Scene}

/-- The countdown shows a time, if it runs. -/
def Timely (s : Scene) : Prop := ∀ x ∈ s.countdown, IsTime x

theorem timely_of_countdown (h : s.countdown = none) : s.Timely := by
  intro x hx
  rw [h] at hx
  cases hx

variable (htimes : ∀ c, g.Holds (.choice c) → ∀ x ∈ c.timeLimit, IsTime x)

include htimes

/-- A dialogue at rest shows no time but that of the choice on offer. -/
theorem AtRest.timely {events : List Event} (h : AtRest g s events) : s.Timely := by
  cases h with
  | idle hs _ => exact timely_of_countdown hs.countdown
  | offering _ _ hc _ _ _ => exact htimes _ hc

theorem Timely.start (hs : s.Timely) (name : String) : (s.start g limit name).scene.Timely := by
  by_cases h : g.contains name = true
  · exact (atRest_start h).timely htimes
  · rw [start_of_contains_eq_false (Bool.not_eq_true _ ▸ h)]
    exact hs

theorem Timely.proceed (hs : s.Timely) (hconsistent : s.Consistent g) :
    (s.proceed g limit).scene.Timely := by
  cases ho : s.offer with
  | none => exact (atRest_proceed (Timed.idle_of_offer hconsistent.timed ho)).timely htimes
  | some o =>
    rw [Scene.proceed, ho]
    exact hs

theorem timely_choose (s : Scene) (index : Nat) : (s.choose g limit index).scene.Timely := by
  rcases @choose_cases g limit s index with ⟨hscene, -⟩ | hrest
  · rw [hscene]
    exact timely_of_countdown rfl
  · exact hrest.timely htimes

/-- What remains behind a tick is a time, whatever it was told to be. -/
theorem timely_tick (hconsistent : s.Consistent g) (seconds : Float) :
    (s.tick g limit seconds).scene.Timely := by
  cases hbefore : s.countdown with
  | none =>
    rw [tick, hbefore]
    exact timely_of_countdown hbefore
  | some before =>
    obtain ⟨o, ho⟩ :=
      Option.isSome_iff_exists.mp (hconsistent.timed (Option.isSome_of_eq_some hbefore))
    by_cases hexpired : timeLeft before seconds ≤ 0
    · rw [tick_of_expired ho hbefore hexpired]
      exact timely_choose htimes s _
    · rw [tick_of_timeLeft ho hbefore hexpired]
      intro x hx
      cases hx
      exact isTime_timeLeft before seconds

omit htimes

/-- What holds of every scene in the dialogue of a script: the default option is the first one, and
the countdown shows a time. -/
structure Scripted (g : Graph) (s : Scene) : Prop where
  consistent : s.Consistent g
  defaulted : s.Defaulted
  timely : s.Timely

theorem scripted_initial (g : Graph) : initial.Scripted g :=
  ⟨consistent_initial g, (fun _ h => nomatch h), (fun _ h => nomatch h)⟩

end Scene

/-! ## Runs -/

namespace Runner

variable {r : Runner}

theorem timely_perform (hr : r.scene.Timely) (hs : r.scene.Consistent r.graph)
    (htimes : ∀ c, r.graph.Holds (.choice c) → ∀ x ∈ c.timeLimit, IsTime x) (c : Call) :
    (r.perform c).runner.scene.Timely := by
  cases c with
  | start name => exact hr.start htimes name
  | proceed => exact hr.proceed htimes hs
  | choose index => exact Scene.timely_choose htimes r.scene index
  | tick seconds => exact Scene.timely_tick htimes hs seconds
  | set name v => exact hr
  | remove name => exact hr
  | clear => exact hr
  | subscribe listener => exact hr
  | drain => exact hr

/-- One call on the runner of a script, where it is reading the script that makes the choices
regular and their limits times. -/
theorem scripted_perform {name text : String} (h : Graph.ofText name text = .ok r.graph)
    (hr : r.scene.Scripted r.graph) (c : Call) :
    (r.perform c).runner.scene.Scripted r.graph where
  consistent := consistent_perform hr.consistent c
  defaulted := hr.defaulted.reply (fun _ => Graph.regular_of_ofText h)
    (reply_perform hr.consistent.timed c)
  timely := timely_perform hr.timely hr.consistent (fun _ => Graph.isTime_of_ofText h) c

theorem scripted_run {name text : String} (h : Graph.ofText name text = .ok r.graph)
    (hr : r.scene.Scripted r.graph) (calls : List Call) :
    (r.after calls).scene.Scripted r.graph := by
  induction calls generalizing r with
  | nil => exact hr
  | cons c rest ih =>
    have hcall := scripted_perform h hr c
    rw [← r.graph_perform c] at h hcall ⊢
    exact ih h hcall

/-- **The countdowns of scripts run out to an option.** Whatever calls have been made on the runner
of a script, its countdown shows a number that is not negative, if it runs; a tick that leaves no
time takes the first option on offer, and does what choosing it does; and no tick fails for want of
an option. -/
theorem timeout_of_ofText {name text : String} {g : Graph} (h : Graph.ofText name text = .ok g)
    (config : Config) (calls : List Call) :
    let r := (ofGraph g config).after calls
    (∀ x, r.scene.countdown = some x → x.isNaN = false ∧ 0 ≤ x) ∧
    (∀ seconds before, r.scene.countdown = some before → Scene.timeLeft before seconds ≤ 0 →
      (∃ first rest, r.scene.offer = some ⟨first :: rest, 0⟩) ∧
        r.perform (.tick seconds) =
          r.take ((r.scene.choose r.graph r.config.stepLimit 0).after
            [.timerUpdated (Scene.timeLeft before seconds), .timerExpired])) ∧
    ∀ seconds index available,
      (r.perform (.tick seconds)).fault ≠ some (.optionOutOfRange index available) := by
  intro r
  have hgraph : r.graph = g := graph_after (ofGraph g config) calls
  have hr : r.scene.Scripted r.graph := by
    rw [hgraph]
    exact scripted_run (r := ofGraph g config) h (Scene.scripted_initial g) calls
  -- An offer is not empty, and its first option is the default one.
  have hfirst : ∀ o, r.scene.offer = some o → ∃ first rest, o = ⟨first :: rest, 0⟩ := by
    intro o ho
    obtain ⟨first, rest, hentries⟩ := List.exists_cons_of_ne_nil (hr.consistent.shown o ho).1
    refine ⟨first, rest, ?_⟩
    rw [← hentries, ← hr.defaulted o ho]
  refine ⟨?_, ?_, ?_⟩
  · intro x hx
    obtain ⟨hnumber, hnonneg⟩ := hr.timely x hx
    exact ⟨hnumber, hnonneg⟩
  · intro seconds before hbefore hexpired
    obtain ⟨o, ho⟩ :=
      Option.isSome_iff_exists.mp (hr.consistent.timed (Option.isSome_of_eq_some hbefore))
    obtain ⟨first, rest, rfl⟩ := hfirst o ho
    refine ⟨⟨first, rest, ho⟩, ?_⟩
    show r.take (r.scene.tick r.graph r.config.stepLimit seconds) = _
    rw [Scene.tick_of_expired ho hbefore hexpired]
    rfl
  · intro seconds index available hfault
    have hbreaks : (r.scene.tick r.graph r.config.stepLimit seconds).BreaksOff := by
      apply hr.consistent.breaksOff_tick
      intro o before ho _ _
      obtain ⟨first, rest, rfl⟩ := hfirst o ho
      exact Nat.zero_lt_succ rest.length
    cases hbreaks.inRange _ hfault

/-- A duel that nobody shoots in, with two time limits for one choice. -/
def duelScript : String :=
  "title: Duel\n---\n-> Draw [time 5]\n    <<set drawn = true>>\n-> Wait [time 8]\nBang\n==="

/-- A tick of what is no number leaves the countdown alone, and the next one takes all that is
left. -/
theorem timeout_of_ofText_duelScript :
    ∃ g, Graph.ofText "duel" duelScript = .ok g ∧
      let r := (ofGraph g .usual).after [.start "duel", .tick (0 / 0)]
      r.scene.countdown = some 5 ∧ (5 : Float).isNaN = false ∧ (0 : Float) ≤ 5 ∧
      Scene.timeLeft 5 9 ≤ 0 ∧ (∃ first rest, r.scene.offer = some ⟨first :: rest, 0⟩) ∧
      r.perform (.tick 9) =
        r.take ((r.scene.choose r.graph r.config.stepLimit 0).after
          [.timerUpdated (Scene.timeLeft 5 9), .timerExpired]) ∧
      ∀ index available,
        (r.perform (.tick 9)).fault ≠ some (.optionOutOfRange index available) := by
  have hrun : (Graph.ofText "duel" duelScript).toOption.map
      (fun g => ((ofGraph g .usual).after [.start "duel", .tick (0 / 0)]).scene.countdown) =
        some (some 5) := by decide +kernel
  have hexpired : Scene.timeLeft 5 9 ≤ 0 := by decide +kernel
  cases hg : Graph.ofText "duel" duelScript with
  | error r =>
    rw [hg] at hrun
    cases hrun
  | ok g =>
    rw [hg] at hrun
    have hcountdown := Option.some.inj hrun
    obtain ⟨htime, hfirst, hfault⟩ := timeout_of_ofText hg .usual [.start "duel", .tick (0 / 0)]
    obtain ⟨hnumber, hnonneg⟩ := htime 5 hcountdown
    obtain ⟨hoffer, htick⟩ := hfirst 9 5 hcountdown hexpired
    exact ⟨g, rfl, hcountdown, hnumber, hnonneg, hexpired, hoffer, htick, hfault 9⟩

end Runner

end Dialogue
