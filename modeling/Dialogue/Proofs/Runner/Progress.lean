import Dialogue.Proofs.Runner.Offer
import Dialogue.Proofs.Script.Clean

/-!
# Progress

On a clean graph nothing can go wrong but the limit of steps. Every fault of a run has a cause in
the graph or in the call: a jump out of the graph, a condition without an outcome, a choice with
nothing to offer, an option that is not there. A clean graph gives no cause of the first three
kinds, and the calls that a runner *admits* (a start under a name of the graph, the choice of an
option on offer, and everything else) give none of the last kind.

The default option needs more than the calls: it is taken when the time is over, and has to be on
offer then. It is the first one (`Scene.Defaulted`), and offers are not empty.
-/

namespace Dialogue

/-- The call has not failed, unless at the limit of steps. -/
def Burst.Sound (limit : UInt64) (b : Burst) : Prop :=
  ∀ e, b.fault = some e → ∃ node, e = .stepLimit limit node

theorem Burst.sound_of_eq_none {limit : UInt64} {b : Burst} (h : b.fault = none) :
    b.Sound limit := by
  intro e he
  rw [h] at he
  cases he

/-- A call in two parts is sound if the first part does not fail and the second one is sound. -/
theorem Burst.sound_andThen {limit : UInt64} {b : Burst} {f : Scene → Burst} (h : b.fault = none)
    (hf : (f b.scene).Sound limit) : (b.andThen f).Sound limit := by
  rw [andThen, h]
  exact hf

namespace Scene

variable {g : Graph} {limit : UInt64} {s s' : Scene}

/-! ## Steps -/

theorem fault_execute {c : Command} (h : g.Lands [c]) : (s.execute g c).fault = none := by
  cases c with
  | set name v => rfl
  | jump target =>
    obtain ⟨n, hn⟩ := Option.isSome_iff_exists.mp (h target List.mem_cons_self)
    rw [execute, jump, hn]
    rfl

theorem fault_executeAll {commands : List Command} (h : g.Lands commands) :
    (s.executeAll g commands).fault = none := by
  induction commands generalizing s with
  | nil => rfl
  | cons c rest ih =>
    have hfirst : (s.execute g c).fault = none :=
      fault_execute fun target htarget =>
        h target (List.mem_singleton.mp htarget ▸ List.mem_cons_self)
    rw [executeAll, Burst.andThen, hfirst]
    exact ih fun target htarget => h target (List.mem_cons_of_mem _ htarget)

variable (hg : g.Clean) (hregular : ∀ c, g.Holds (.choice c) → c.Regular)

include hg hregular

theorem fault_present {c : Choice} (hc : g.Holds (.choice c)) : (s.present c).fault = none := by
  obtain ⟨shown, hshown, hne⟩ := hg.exists_offered hc (hregular c hc) s.vars
  rw [present, hshown]
  cases shown with
  | nil => exact absurd rfl hne
  | cons e rest => rfl

/-- A step of a clean graph that ends a call ends it without a fault. -/
theorem fault_of_done {step : Step} {index : Nat} {b : Burst} (hstep : g.Holds step)
    (h : s.take g step index = .done b) : b.fault = none := by
  rcases take_eq_done_cases h with ⟨text, span, -, rfl⟩ | ⟨c, rfl, rfl⟩ |
    ⟨c, span, s₁, events, e, rfl, hexecute, rfl⟩ |
    ⟨condition, thenSteps, elseSteps, span, e, rfl, hcheck, rfl⟩
  · rfl
  · exact fault_present hg hregular hstep
  · have hfault := fault_execute (s := s) (hg.lands _ hstep)
    rw [hexecute] at hfault
    cases hfault
  · obtain ⟨holds, hholds⟩ :=
      (hg.orderFree _ hstep condition List.mem_cons_self).exists_check s.vars
    rw [hholds] at hcheck
    cases hcheck

/-- **A dialogue that goes on in a clean graph comes to rest or to the limit.** -/
theorem sound_advance (budget : Nat) : (s.advance g limit budget []).Sound limit := by
  induction budget, s using advance_induction (g := g) with
  | ended budget s hf =>
    rw [advance_of_fetch_eq_none hf]
    exact Burst.sound_of_eq_none rfl
  | limited s s' step index hf =>
    rw [advance_zero hf]
    intro e he
    cases he
    exact ⟨_, rfl⟩
  | done budget s s' step index b hf ht =>
    rw [advance_of_done hf ht]
    exact Burst.sound_of_eq_none (fault_of_done hg hregular (holds_of_fetch hf) ht)
  | onwards budget s s' s'' step index events hf ht ih =>
    rw [advance_succ_of_onwards hf ht]
    exact ih

/-! ## Calls -/

theorem sound_proceed : (s.proceed g limit).Sound limit := by
  rw [proceed]
  split
  · exact Burst.sound_of_eq_none rfl
  · exact sound_advance hg hregular _

theorem sound_start {name : String} (h : g.contains name = true) :
    (s.start g limit name).Sound limit := by
  obtain ⟨n, hn⟩ := Option.isSome_iff_exists.mp h
  rw [start, jump, hn]
  exact sound_proceed hg hregular

/-- Taking an option on offer, whose entry is one of a choice of the graph. -/
theorem sound_choose (hs : s.Consistent g) {index : Nat} (h : index < s.options.length) :
    (s.choose g limit index).Sound limit := by
  rw [options] at h
  rw [choose]
  cases ho : s.offer with
  | none => exact Burst.sound_of_eq_none rfl
  | some o =>
    rw [ho, List.length_map] at h
    obtain ⟨-, c, hc, hsub⟩ := hs.shown o ho
    simp only [List.getElem?_eq_getElem h]
    refine Burst.sound_andThen (fault_executeAll fun target htarget => ?_)
      (sound_proceed hg hregular)
    -- The jumps of the option are those of a choice of the graph.
    have hentry := hsub.subset (List.getElem_mem h)
    exact hg.lands _ hc target (List.mem_flatMap_of_mem hentry htarget)

omit hg hregular

/-- The default option of an offer is its first one. -/
def Defaulted (s : Scene) : Prop := ∀ o, s.offer = some o → o.defaultOption = 0

include hregular

theorem AtRest.defaulted {events : List Event} (h : AtRest g s events) : s.Defaulted := by
  intro o ho
  cases h with
  | idle hs _ =>
    rw [hs.offer] at ho
    cases ho
  | offering _ _ hc _ _ _ =>
    cases ho
    exact (hregular _ hc).default

/-- No reply gives an offer another default option. -/
theorem Defaulted.reply {events : List Event} (h : s.Defaulted) (hreply : Reply g s s' events) :
    s'.Defaulted := by
  cases hreply with
  | unmoved _ hoffer _ =>
    intro o ho
    rw [hoffer] at ho
    exact h o ho
  | disarmed => exact h
  | counted _ _ => exact h
  | moved hrest => exact hrest.defaulted hregular
  | expired _ hrest =>
    rcases hrest with ⟨rfl, -⟩ | hrest
    · exact h
    · exact hrest.defaulted hregular

include hg

/-- When the time is over, the default option is on offer. -/
theorem sound_tick (hs : s.Consistent g) (hdefault : s.Defaulted) (seconds : Float) :
    (s.tick g limit seconds).Sound limit := by
  rw [tick]
  split
  · exact Burst.sound_of_eq_none rfl
  · split
    · exact Burst.sound_of_eq_none rfl
    · next o ho =>
      dsimp only
      split
      · -- The first option is on offer, since the offer is not empty.
        have hoptions : o.defaultOption.toNat <
            ({ s with countdown := none } : Scene).options.length := by
          have hne := List.length_pos_of_ne_nil (hs.shown o ho).1
          simp only [options, ho, List.length_map, hdefault o ho]
          exact hne
        exact sound_choose hg hregular hs.disarm hoptions
      · exact Burst.sound_of_eq_none rfl

end Scene

/-! ## Runs -/

namespace Runner

variable {r : Runner}

/-- The calls that a runner admits: a start under a name of the graph, the choice of an option on
offer, and every other call. -/
def Admits (r : Runner) : Call → Prop
  | .start name => r.graph.contains name = true
  | .choose index => index < r.scene.options.length
  | _ => True

/-- The runner admits the calls, one after the other. -/
def AdmitsAll (r : Runner) : List Call → Prop
  | [] => True
  | c :: rest => r.Admits c ∧ (r.perform c).runner.AdmitsAll rest

instance (r : Runner) (c : Call) : Decidable (r.Admits c) :=
  match c with
  | .start _ => inferInstanceAs (Decidable (_ = true))
  | .choose _ => inferInstanceAs (Decidable (_ < _))
  | .proceed | .tick _ | .set _ _ | .remove _ | .clear | .subscribe _ | .drain => isTrue trivial

instance decidableAdmitsAll (r : Runner) : (calls : List Call) → Decidable (r.AdmitsAll calls)
  | [] => isTrue trivial
  | c :: rest =>
    have := decidableAdmitsAll (r.perform c).runner rest
    inferInstanceAs (Decidable (_ ∧ _))

/-- The answer has no fault but that of the limit of steps. -/
theorem perform_sound (hg : r.graph.Clean)
    (hregular : ∀ c, r.graph.Holds (.choice c) → c.Regular) (hs : r.scene.Consistent r.graph)
    (hdefault : r.scene.Defaulted) {c : Call} (hc : r.Admits c) :
    ∀ e, (r.perform c).fault = some e → ∃ node, e = .stepLimit r.config.stepLimit node := by
  cases c with
  | start name => exact Scene.sound_start hg hregular hc
  | proceed => exact Scene.sound_proceed hg hregular
  | choose index => exact Scene.sound_choose hg hregular hs hc
  | tick seconds => exact Scene.sound_tick hg hregular hs hdefault seconds
  | _ =>
    intro e he
    cases he

/-- What holds of a runner on a clean and regular graph is kept by every call, and so no admitted
call fails but at the limit. -/
theorem performAll_sound (hg : r.graph.Clean)
    (hregular : ∀ c, r.graph.Holds (.choice c) → c.Regular) (hs : r.scene.Consistent r.graph)
    (hdefault : r.scene.Defaulted) {calls : List Call} (hcalls : r.AdmitsAll calls) :
    ∀ a ∈ r.performAll calls, ∀ e, a.fault = some e →
      ∃ node, e = .stepLimit r.config.stepLimit node := by
  induction calls generalizing r with
  | nil => exact fun _ ha => nomatch ha
  | cons c rest ih =>
    obtain ⟨hc, hrest⟩ := hcalls
    refine List.forall_mem_cons.mpr ⟨perform_sound hg hregular hs hdefault hc, ?_⟩
    have hgraph := r.graph_perform c
    have hreply := reply_perform hs.timed c
    rw [← r.config_perform c]
    exact ih (hgraph ▸ hg) (hgraph ▸ hregular) (hgraph ▸ hs.reply hreply)
      (hdefault.reply hregular hreply) hrest

/-- **A clean script makes progress.** On a clean graph that is read from a script, with any
settings and any variables to start from, no admitted call fails but at the limit of steps. -/
theorem performAll_of_clean {name text : String} {g : Graph} (h : Graph.ofText name text = .ok g)
    (hclean : g.Clean) (config : Config) (vars : Store) {calls : List Call}
    (hcalls : ((ofGraph g config).withVars vars).AdmitsAll calls) :
    ∀ a ∈ ((ofGraph g config).withVars vars).performAll calls, ∀ e, a.fault = some e →
      ∃ node, e = .stepLimit config.stepLimit node := by
  have hs : Scene.Consistent g { Scene.initial with vars := vars } :=
    ⟨(fun h => nomatch h), (fun _ h => nomatch h), (fun _ h => nomatch h)⟩
  have hdefault : Scene.Defaulted { Scene.initial with vars := vars } := fun _ h => nomatch h
  exact performAll_sound hclean (fun _ => Graph.regular_of_ofText h) hs hdefault hcalls

/-- The variable that guards the first option is written while both options are on offer. -/
theorem performAll_of_clean_gateScript :
    ∃ g, Graph.ofText "gate" gateScript = .ok g ∧ g.Clean ∧
      ((ofGraph g ⟨4, 8⟩).withVars (.set .empty "X" (.bool true))).AdmitsAll
        [.start "a", .choose 0, .start "A", .set "y" (.bool true), .choose 1, .proceed] ∧
      ∀ a ∈ ((ofGraph g ⟨4, 8⟩).withVars (.set .empty "X" (.bool true))).performAll
          [.start "a", .choose 0, .start "A", .set "y" (.bool true), .choose 1, .proceed],
        ∀ e, a.fault = some e → ∃ node, e = .stepLimit 4 node := by
  have hcheck : ((Graph.ofText "gate" gateScript).toOption.any fun g => decide (g.Clean ∧
      ((ofGraph g ⟨4, 8⟩).withVars (.set .empty "X" (.bool true))).AdmitsAll
        [.start "a", .choose 0, .start "A", .set "y" (.bool true), .choose 1, .proceed])) =
      true := by
    decide +kernel
  cases hg : Graph.ofText "gate" gateScript with
  | error r =>
    rw [hg] at hcheck
    cases hcheck
  | ok g =>
    rw [hg] at hcheck
    obtain ⟨hclean, hcalls⟩ := of_decide_eq_true hcheck
    exact ⟨g, rfl, hclean, hcalls, performAll_of_clean hg hclean ⟨4, 8⟩ _ hcalls⟩

end Runner

end Dialogue
