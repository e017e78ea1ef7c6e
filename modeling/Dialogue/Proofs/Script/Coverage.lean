import Dialogue.Proofs.Graph.WellKeyed
import Dialogue.Proofs.Script.Growing
import Mathlib.Data.List.Forall2
import Mathlib.Data.List.Induction

/-!
# Every line has its place

The steps of a node lie on the lines of its body, and nothing else does: no line is lost, taken
twice, or out of order.

`sections` finds the nodes of a script without a reader: a title starts a section, whose body goes
from the first fence to the next close or title. `Node.LiesOn` says that each line of the body of a
section has one role in the steps of a node, which are laid out on lines with these roles.

`Draft.Becomes` says what the rest of a script makes of a draft, by the place of the draft: of a
body it makes the node whose steps lie on the lines read so far and on those up to its end. This is
carried backwards over one line after the other, with one lemma for each kind of line
(`Becomes.title`, `Becomes.close`, `Becomes.goesOn`).
-/

namespace Dialogue

/-! ## Sections -/

/-- A node as it stands in a script: its name, where its title stands, and the lines of its body
with their numbers. -/
structure Section where
  name : String
  span : Span
  body : List (String × Nat)

/-- Whether the body of a node goes on behind a line. -/
def goesOn (line : String × Nat) : Bool := !endsBody line.1.toList

/-- The lines behind the first fence. -/
def behindFence : List (String × Nat) → List (String × Nat)
  | [] => []
  | line :: rest => if isFence (Text.trim line.1.toList) then rest else behindFence rest

/-- The sections of a script that is given by its lines and their numbers. -/
def sections : List (String × Nat) → List Section
  | [] => []
  | (line, number) :: rest =>
    match titleName? (Text.trim line.toList) with
    | some name =>
      ⟨String.ofList name, lineSpan number line.toList, behindFence (rest.takeWhile goesOn)⟩ ::
        sections rest
    | none => sections rest

/-- The sections of a source, its lines counted from one. -/
def Source.sections (s : Source) : List Section := Dialogue.sections (s.lines.zipIdx 1)

/-- The line with its number can have the role. -/
def Role.FitsLine (line : String × Nat) (role : Role) : Prop := role.Fits line.2 line.1.toList

/-- The node is the one of the section: its steps lie on the lines of the body, each of which has
one role. -/
structure Node.LiesOn (n : Node) (s : Section) : Prop where
  name : n.name = s.name
  span : n.span = s.span
  laid : ∃ roles, List.Forall₂ Role.FitsLine s.body roles ∧ Laid none n.steps roles

/-! ## Drafts -/

/-- What becomes of a place, and of the lines of these roles read into its body, behind which these
lines follow: the nodes that are still to come, the first of them from the place. -/
inductive Ahead (roles : List Role) : Place → List (String × Nat) → List Node → Prop
  | outside {lines : List (String × Nat)} {nodes : List Node} :
      List.Forall₂ Node.LiesOn nodes (sections lines) → Ahead roles .outside lines nodes
  | header {name : String} {span : Span} {lines : List (String × Nat)} {n : Node}
      {nodes : List Node} :
      n.LiesOn ⟨name, span, behindFence (lines.takeWhile goesOn)⟩ →
      List.Forall₂ Node.LiesOn nodes (sections lines) →
      Ahead roles (.header name span) lines (n :: nodes)
  | body {b : BodyDraft} {lines : List (String × Nat)} {more : List Role} {n : Node}
      {nodes : List Node} :
      n.name = b.name → n.span = b.span →
      List.Forall₂ Role.FitsLine (lines.takeWhile goesOn) more → Laid none n.steps (roles ++ more) →
      List.Forall₂ Node.LiesOn nodes (sections lines) →
      Ahead roles (.body b) lines (n :: nodes)

namespace Draft

variable {d d' : Draft} {g : Graph} {roles : List Role} {line : List Char} {number : Nat}

theorem readLine_eq_closeNode (htitle : titleName? (Text.trim line) = none)
    (h : isClose (Text.trim line) = true) (d : Draft) (number : Nat) :
    d.readLine number line = d.settle.closeNode .openIfAtEndOfNode := by
  have htrim : Text.trim line = ['=', '=', '='] := beq_iff_eq.mp h
  have harrow : arrow? line = none := by
    apply arrow?_eq_none
    rw [htrim]
    decide
  have hbody : commandBody? line = none := by
    simp [commandBody?, htrim]
  rw [readLine_eq_readSettled harrow hbody, readSettled, htitle]
  simp only [h, if_true]

theorem exists_outside_of_closeNode {fault : ScriptFault} (h : d.closeNode fault = .ok d') :
    ∃ g, d' = ⟨g, .outside⟩ :=
  ⟨d'.graph, Except.ok.inj (h.symm.trans (closeNode_eq_ok h fault))⟩

theorem readLine_outside (hend : endsBody line = false)
    (h : (⟨g, .outside⟩ : Draft).readLine number line = .ok d') : d' = ⟨g, .outside⟩ := by
  obtain ⟨htitle, hclose⟩ := endsBody_eq_false_iff.mp hend
  simp only [readLine, readSettled, htitle, hclose, Bool.false_eq_true, if_false, readFence] at h
  split at h
  · cases h
  · cases h
    rfl

theorem readLine_header {name : String} {span : Span} (hend : endsBody line = false)
    (h : (⟨g, .header name span⟩ : Draft).readLine number line = .ok d') :
    d' = if isFence (Text.trim line) then ⟨g, .body (.start name span)⟩
      else ⟨g, .header name span⟩ := by
  obtain ⟨htitle, hclose⟩ := endsBody_eq_false_iff.mp hend
  simp only [readLine, readSettled, htitle, hclose, Bool.false_eq_true, if_false, readFence,
    inBranch, Bool.not_false, Bool.and_true] at h
  split at h
  · next hfence =>
    cases h
    rw [if_pos hfence]
  · next hfence =>
    cases h
    rw [if_neg hfence]

/-- The draft becomes the graph when it takes in the lines: by the nodes that are still to come,
whose steps lie on the lines read so far and on these lines. -/
def Becomes (d : Draft) (lines : List (String × Nat)) (g : Graph) : Prop :=
  ∀ roles, (∀ b, d.place = .body b → b.SoFar roles) →
    ∃ nodes, g = nodes.foldl Graph.insert d.graph ∧ Ahead roles d.place lines nodes

variable {next : Draft} {text : String} {lines : List (String × Nat)}

/-- A node that is closed lies on the lines read so far. -/
theorem becomes_of_closeNode {closed : Draft} {fault : ScriptFault} {nodes : List Node}
    (h : d.settle.closeNode fault = .ok closed) (hend : lines.takeWhile goesOn = [])
    (hnodes : List.Forall₂ Node.LiesOn nodes (sections lines)) :
    d.Becomes lines (nodes.foldl Graph.insert closed.graph) := by
  intro roles hroles
  obtain ⟨graph, place⟩ := d
  cases place with
  | outside =>
    cases h
    exact ⟨nodes, rfl, .outside hnodes⟩
  | header name span =>
    cases h
    refine ⟨⟨name, [], span⟩ :: nodes, rfl, .header ⟨rfl, rfl, [], ?_, .nil⟩ hnodes⟩
    rw [hend]
    exact .nil
  | body b =>
    have hopen := (hroles b rfl).settle
    simp only [settle, closeNode] at h
    split at h
    · next hbranches =>
      cases h
      rw [hbranches] at hopen
      cases hopen with
      | node hsteps =>
        have hfits : List.Forall₂ Role.FitsLine (lines.takeWhile goesOn) [] := by
          rw [hend]
          exact .nil
        have hlaid : Laid none b.settle.toNode.steps (roles ++ []) := by
          rw [List.append_nil]
          exact hsteps
        exact ⟨b.settle.toNode :: nodes, rfl, .body b.name_settle b.span_settle hfits hlaid hnodes⟩
    · cases h

theorem becomes_of_finish (h : d.finish = .ok g) : d.Becomes [] g := by
  obtain ⟨closed, hclosed, rfl⟩ := Outcome.map_eq_ok_iff.mp h
  have hbecomes : d.Becomes [] (List.foldl Graph.insert closed.graph []) :=
    becomes_of_closeNode hclosed rfl .nil
  exact hbecomes

theorem takeWhile_goesOn_of_endsBody (hend : endsBody text.toList = true) :
    ((text, number) :: lines).takeWhile goesOn = [] :=
  List.takeWhile_cons_of_neg (by simp [goesOn, hend])

/-- A title closes the node before it and starts the next section. -/
theorem Becomes.title {name : List Char} (htitle : titleName? (Text.trim text.toList) = some name)
    (hline : d.readLine number text.toList = .ok next) (h : next.Becomes lines g) :
    d.Becomes ((text, number) :: lines) g := by
  have hend : endsBody text.toList = true := by rw [endsBody, htitle]; rfl
  rw [readLine_eq_readTitle htitle, readTitle] at hline
  split at hline
  · cases hline
  · next closed hclosed =>
    split at hline
    · cases hline
    · cases hline
      obtain ⟨nodes, rfl, hahead⟩ := h [] (fun _ hb => by cases hb)
      cases hahead with
      | @header _ _ _ n nodes hlies hnodes =>
        have hsections : List.Forall₂ Node.LiesOn (n :: nodes)
            (sections ((text, number) :: lines)) := by
          rw [sections, htitle]
          exact .cons hlies hnodes
        -- The graph of the closed draft does not change when the next header is put in its place.
        have hbecomes : d.Becomes ((text, number) :: lines)
            ((n :: nodes).foldl Graph.insert closed.graph) :=
          becomes_of_closeNode hclosed (takeWhile_goesOn_of_endsBody hend) hsections
        exact hbecomes

/-- A close closes the node before it. -/
theorem Becomes.close (htitle : titleName? (Text.trim text.toList) = none)
    (hclose : isClose (Text.trim text.toList) = true)
    (hline : d.readLine number text.toList = .ok next) (h : next.Becomes lines g) :
    d.Becomes ((text, number) :: lines) g := by
  have hend : endsBody text.toList = true := by rw [endsBody, hclose, Bool.or_true]
  rw [readLine_eq_closeNode htitle hclose] at hline
  obtain ⟨graph, rfl⟩ := exists_outside_of_closeNode hline
  obtain ⟨nodes, rfl, hahead⟩ := h [] (fun _ hb => by cases hb)
  cases hahead with
  | outside hnodes =>
    refine becomes_of_closeNode hline (takeWhile_goesOn_of_endsBody hend) ?_
    rw [sections, htitle]
    exact hnodes

/-- Any other line is passed over outside of bodies, but for the fence that opens one; in a body it
has one role. -/
theorem Becomes.goesOn (hend : endsBody text.toList = false)
    (hline : d.readLine number text.toList = .ok next) (h : next.Becomes lines g) :
    d.Becomes ((text, number) :: lines) g := by
  have htake : ((text, number) :: lines).takeWhile Dialogue.goesOn =
      (text, number) :: lines.takeWhile Dialogue.goesOn :=
    List.takeWhile_cons_of_pos (by simp [Dialogue.goesOn, hend])
  have hsections : sections ((text, number) :: lines) = sections lines := by
    rw [sections, (endsBody_eq_false_iff.mp hend).1]
  intro roles hroles
  obtain ⟨graph, place⟩ := d
  cases place with
  | outside =>
    obtain rfl := readLine_outside hend hline
    obtain ⟨nodes, hgraph, hahead⟩ := h roles hroles
    cases hahead with
    | outside hnodes => exact ⟨nodes, hgraph, .outside (hsections ▸ hnodes)⟩
  | header name span =>
    obtain rfl := readLine_header hend hline
    cases hfence : isFence (Text.trim text.toList) with
    | true =>
      -- The fence opens a body, into which nothing has been read.
      rw [hfence] at h
      obtain ⟨nodes, hgraph, hahead⟩ := h [] fun b hb => by cases hb; exact .node .nil
      cases hahead with
      | body hname hspan hfits hlaid hnodes =>
        refine ⟨_, hgraph, .header ⟨hname, hspan, _, ?_, hlaid⟩ (hsections ▸ hnodes)⟩
        rw [htake, behindFence, if_pos hfence]
        exact hfits
    | false =>
      rw [hfence] at h
      obtain ⟨nodes, hgraph, hahead⟩ := h [] fun b hb => by cases hb
      cases hahead with
      | header hlies hnodes =>
        refine ⟨_, hgraph, .header ?_ (hsections ▸ hnodes)⟩
        rw [htake, behindFence, if_neg (by simp [hfence])]
        exact hlies
  | body b =>
    -- The role of the line comes behind those of the lines read so far.
    obtain ⟨b', rfl, hname, hspan, role, hrole, hb'⟩ := grown_readLine (hroles b rfl) hend hline
    obtain ⟨nodes, hgraph, hahead⟩ := h _ fun _ hb => by cases hb; exact hb'
    cases hahead with
    | body hname' hspan' hfits hlaid hnodes =>
      rw [List.append_assoc] at hlaid
      refine ⟨_, hgraph,
        .body (hname'.trans hname) (hspan'.trans hspan) ?_ hlaid (hsections ▸ hnodes)⟩
      rw [htake]
      exact .cons hrole hfits

/-- **One line.** What becomes of the draft behind a line becomes of the draft before it. -/
theorem Becomes.readLine (hline : d.readLine number text.toList = .ok next)
    (h : next.Becomes lines g) : d.Becomes ((text, number) :: lines) g := by
  cases hend : endsBody text.toList with
  | false => exact h.goesOn hend hline
  | true =>
    cases htitle : titleName? (Text.trim text.toList) with
    | some name => exact h.title htitle hline
    | none =>
      rw [endsBody, htitle, Option.isSome_none, Bool.false_or] at hend
      exact h.close htitle hend hline

theorem becomes_of_readLines {texts : List String} (h : d.readLines number texts = .ok d')
    (hfinish : d'.finish = .ok g) : d.Becomes (texts.zipIdx number) g := by
  induction texts generalizing d number with
  | nil =>
    cases h
    exact becomes_of_finish hfinish
  | cons text rest ih =>
    rw [readLines] at h
    split at h
    · cases h
    · next next hline => exact (ih h).readLine hline

end Draft

/-! ## Numbers of lines -/

theorem behindFence_sublist (lines : List (String × Nat)) : (behindFence lines).Sublist lines := by
  induction lines with
  | nil => exact .slnil
  | cons line rest ih =>
    rw [behindFence]
    split
    · exact .cons line (.refl rest)
    · exact ih.cons line

theorem body_sublist_of_mem_sections {lines : List (String × Nat)} {s : Section}
    (h : s ∈ sections lines) : s.body.Sublist lines := by
  induction lines with
  | nil => cases h
  | cons line rest ih =>
    obtain ⟨text, number⟩ := line
    rw [sections] at h
    split at h
    · rcases List.mem_cons.mp h with rfl | h
      · exact ((behindFence_sublist _).trans (List.takeWhile_sublist goesOn)).cons _
      · exact (ih h).cons _
    · exact (ih h).cons _

theorem exists_line_of_span {lines : List (String × Nat)} {roles : List Role} {span : Span}
    (h : List.Forall₂ Role.FitsLine lines roles) (hspan : span ∈ roles.filterMap Role.span?) :
    ∃ line ∈ lines, span.line = .ofNat line.2 := by
  induction h with
  | nil => cases hspan
  | @cons line role lines roles hfits _ ih =>
    rw [List.filterMap_cons] at hspan
    split at hspan
    · obtain ⟨other, hother, hline⟩ := ih hspan
      exact ⟨other, List.mem_cons_of_mem _ hother, hline⟩
    · next own hown =>
      rcases List.mem_cons.mp hspan with rfl | hspan
      · rw [hfits.span_eq hown]
        exact ⟨line, List.mem_cons_self, rfl⟩
      · obtain ⟨other, hother, hline⟩ := ih hspan
        exact ⟨other, List.mem_cons_of_mem _ hother, hline⟩

/-- The steps on lines with increasing numbers have increasing spans, as long as these can tell the
numbers apart. -/
theorem pairwise_span_lines {lines : List (String × Nat)} {roles : List Role}
    (h : List.Forall₂ Role.FitsLine lines roles) (hlines : (lines.map Prod.snd).Pairwise (· < ·))
    (hsize : ∀ line ∈ lines, line.2 < UInt32.size) :
    (roles.filterMap Role.span?).Pairwise fun a b => a.line < b.line := by
  induction h with
  | nil => exact .nil
  | @cons line role lines roles hfits hrest ih =>
    obtain ⟨hline, hsizes⟩ := List.forall_mem_cons.mp hsize
    obtain ⟨hbelow, hlines⟩ := List.pairwise_cons.mp hlines
    rw [List.filterMap_cons]
    split
    · exact ih hlines hsizes
    · next own hown =>
      refine .cons (fun span hspan => ?_) (ih hlines hsizes)
      obtain ⟨other, hother, hnumber⟩ := exists_line_of_span hrest hspan
      rw [hfits.span_eq hown, hnumber, UInt32.lt_iff_toNat_lt]
      show (UInt32.ofNat line.2).toNat < (UInt32.ofNat other.2).toNat
      rw [UInt32.toNat_ofNat_of_lt' hline, UInt32.toNat_ofNat_of_lt' (hsizes other hother)]
      exact hbelow _ (List.mem_map_of_mem hother)

/-! ## Scripts -/

/-- What a list holds is related to something in the list that it is related to place by place. -/
theorem exists_of_forall₂ {α β : Type} {R : α → β → Prop} {l : List α} {m : List β}
    (h : List.Forall₂ R l m) {b : β} (hb : b ∈ m) : ∃ a ∈ l, R a b := by
  induction h with
  | nil => cases hb
  | cons hr _ ih =>
    rcases List.mem_cons.mp hb with rfl | hb
    · exact ⟨_, List.mem_cons_self, hr⟩
    · obtain ⟨a, ha, hr⟩ := ih hb
      exact ⟨a, List.mem_cons_of_mem _ ha, hr⟩

namespace Graph

theorem ofNodes_append (nodes : List Node) (n : Node) :
    ofNodes (nodes ++ [n]) = (ofNodes nodes).insert n := by
  rw [ofNodes, List.foldl_append]
  rfl

theorem mem_of_mem_ofNodes {nodes : List Node} {n : Node} (h : n ∈ (ofNodes nodes).toList) :
    n ∈ nodes := by
  induction nodes using List.reverseRecOn with
  | nil => cases h
  | append_singleton nodes last ih =>
    rw [ofNodes_append] at h
    obtain ⟨e, he, rfl⟩ := List.mem_map.mp h
    rcases NameTable.mem_insertInto he with rfl | he
    · exact List.mem_append_right _ List.mem_cons_self
    · exact List.mem_append_left _ (ih (List.mem_map_of_mem he))

/-- A node whose name no other node has is found under its name. -/
theorem get?_ofNodes {nodes : List Node} {n : Node}
    (hnames : (nodes.map fun n => foldName n.name).Nodup) (h : n ∈ nodes) :
    (ofNodes nodes).get? n.name = some n := by
  induction nodes using List.reverseRecOn with
  | nil => cases h
  | append_singleton nodes last ih =>
    rw [List.map_append, List.nodup_append] at hnames
    obtain ⟨hnodes, -, hlast⟩ := hnames
    rw [ofNodes_append, get?_insert]
    rcases List.mem_append.mp h with h | h
    · have hne := hlast _ (List.mem_map_of_mem h) _ List.mem_cons_self
      rw [if_neg hne]
      exact ih hnodes h
    · cases List.mem_singleton.mp h
      rw [if_pos rfl]

/-- The nodes of a script are those of its sections, and of two with one name the later one
counts. -/
theorem exists_liesOn_of_ofText {name text : String} {g : Graph} (h : ofText name text = .ok g) :
    ∃ nodes, g = ofNodes nodes ∧
      List.Forall₂ Node.LiesOn nodes (Source.ofText name text).sections := by
  obtain ⟨d, hread, hfinish⟩ := exists_draft_of_ofText h
  obtain ⟨nodes, hgraph, hahead⟩ :=
    Draft.becomes_of_readLines hread hfinish [] fun _ hb => by cases hb
  cases hahead with
  | outside hnodes => exact ⟨nodes, hgraph, hnodes⟩

/-- **Every line of a body has its place.** In a script that gives no name twice, every section has
its node in the graph and every node its section, and each line of the body of a section has one
role in the steps of the node: the roles fit the lines, in their order, and the steps are laid out
on lines with these roles. So a walk through the steps in preorder meets the lines that hold
something in their order and once each; and the spans it meets go strictly down the script, as long
as they can tell its lines apart. -/
theorem laid_of_ofText {name text : String} {g : Graph} (h : ofText name text = .ok g)
    (hnames : ((Source.ofText name text).sections.map fun s => foldName s.name).Nodup) :
    (∀ s ∈ (Source.ofText name text).sections, ∃ n roles, g.get? s.name = some n ∧
        n.name = s.name ∧ n.span = s.span ∧
        List.Forall₂ Role.FitsLine s.body roles ∧ Laid none n.steps roles ∧
        Step.walkAll n.steps = roles.filter Role.isItem ∧
        ((Source.ofText name text).lines.length < UInt32.size →
          ((Step.walkAll n.steps).filterMap Role.span?).Pairwise fun a b => a.line < b.line)) ∧
      ∀ n ∈ g.toList, ∃ s ∈ (Source.ofText name text).sections, n.LiesOn s := by
  obtain ⟨nodes, rfl, hnodes⟩ := exists_liesOn_of_ofText h
  constructor
  · intro s hs
    obtain ⟨n, hn, hlies⟩ := exists_of_forall₂ hnodes hs
    obtain ⟨roles, hfits, hlaid⟩ := hlies.laid
    have hkeys : nodes.map (fun n => foldName n.name) =
        (Source.ofText name text).sections.map fun s => foldName s.name := by
      rw [← List.forall₂_eq_eq_eq, List.forall₂_map_left_iff, List.forall₂_map_right_iff]
      exact hnodes.imp fun _ _ hlies => congrArg foldName hlies.name
    refine ⟨n, roles, ?_, hlies.name, hlies.span, hfits, hlaid, hlaid.walkAll_eq, fun hsize => ?_⟩
    · rw [← hlies.name]
      exact get?_ofNodes (hkeys ▸ hnames) hn
    · have hbody := body_sublist_of_mem_sections hs
      have hnumbers := hbody.map Prod.snd
      rw [List.zipIdx_map_snd] at hnumbers
      rw [hlaid.walkAll_eq]
      refine (pairwise_span_lines hfits ?_ ?_).sublist (List.filter_sublist.filterMap _)
      · exact (List.pairwise_lt_range' 1).sublist hnumbers
      · intro line hline
        have hnumber := hnumbers.subset (List.mem_map_of_mem hline)
        rw [List.mem_range'_1] at hnumber
        omega
  · intro n hn
    obtain ⟨s, hs, hlies⟩ := exists_of_forall₂ hnodes.flip (mem_of_mem_ofNodes hn)
    exact ⟨s, hs, hlies⟩

end Graph

/-- A script with a branch that an indented line turns, a choice inside it, and a fence too many. -/
def gateScript : String :=
  "title: A\n---\n<<if x>>\n-> Go [if !y]\n    <<jump B>>\n-> Stay\n    <<else>>\nNo\n" ++
    "<<endif>>\n---\n===\ntitle: B"

theorem Graph.laid_of_ofText_gateScript :
    ∃ g, ofText "gate" gateScript = .ok g ∧
      ((Source.ofText "gate" gateScript).sections.map fun s => foldName s.name) = ["a", "b"] ∧
      ∀ s ∈ (Source.ofText "gate" gateScript).sections, ∃ n roles, g.get? s.name = some n ∧
        List.Forall₂ Role.FitsLine s.body roles ∧ Laid none n.steps roles := by
  have hread : (ofText "gate" gateScript).isOk := by decide +kernel
  have hnames : ((Source.ofText "gate" gateScript).sections.map fun s => foldName s.name) =
      ["a", "b"] := by decide +kernel
  cases hg : ofText "gate" gateScript with
  | error r =>
    rw [hg] at hread
    cases hread
  | ok g =>
    refine ⟨g, rfl, hnames, fun s hs => ?_⟩
    have hlaid := (laid_of_ofText hg (hnames ▸ by decide)).1 s hs
    obtain ⟨n, roles, hget, -, -, hfits, hlaid, -⟩ := hlaid
    exact ⟨n, roles, hget, hfits, hlaid⟩

end Dialogue
