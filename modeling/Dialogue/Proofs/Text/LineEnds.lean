import Dialogue.Proofs.Text.Lines
import Mathlib.Data.List.Chain

/-!
# Endings of lines

A line may end in three ways, and a text may mix them (`LineEnd`). Two parts of a text with an
ending between them are split each on its own (`splitLines_append_lineEnd`), unless the ending makes
another one together with what stands next to it: a line feed behind a carriage return, or a
carriage return in front of a line feed (`LineEnd.Parts`).

So lines that are joined by endings of any kind are split into the same lines again, and one thing
only can go wrong: a lone carriage return in front of an empty line that ends with a line feed
(`splitLines_joinLines_iff`). And each line of a text has its end in it, where characters can be put
in that go to that line and change nothing else (`hasLineEnds`).
-/

namespace Dialogue.Text

/-! ## Endings -/

/-- What stands at the end of a line. -/
inductive LineEnd where
  | lineFeed
  | carriageReturn
  | both
  deriving DecidableEq, Repr

namespace LineEnd

/-- The characters of an ending. -/
def text : LineEnd → List Char
  | .lineFeed => ['\n']
  | .carriageReturn => ['\r']
  | .both => ['\r', '\n']

/-- The ending stands on its own between the text in front of it and the text behind it. -/
def Parts (front back : List Char) : LineEnd → Prop
  | .lineFeed => front.getLast? ≠ some '\r'
  | .carriageReturn => back.head? ≠ some '\n'
  | .both => True

end LineEnd

/-! ## Two parts of a text -/

/-- Newlines are unified in two parts of a text, unless an ending is cut in two between them. -/
theorem unifyNewlines_append_of_uncut {front back : List Char}
    (h : front.getLast? = some '\r' → back.head? ≠ some '\n') :
    unifyNewlines (front ++ back) = unifyNewlines front ++ unifyNewlines back := by
  induction front using unifyNewlines.induct with
  | case1 => rfl
  | case2 cs ih =>
    rw [List.cons_append, List.cons_append, unifyNewlines, unifyNewlines, List.cons_append, ih]
    intro hlast
    apply h
    rw [List.getLast?_cons_cons, List.getLast?_cons, hlast]
    rfl
  | case3 c cs hpair ih =>
    have hcons : unifyNewlines (c :: cs) = (if c = '\r' then '\n' else c) :: unifyNewlines cs := by
      rw [unifyNewlines]
      exact hpair
    rw [hcons, List.cons_append, List.cons_append, unifyNewlines, ih]
    · intro hlast
      apply h
      rw [List.getLast?_cons, hlast]
      rfl
    · -- The pair is not in front, and it does not come about at the cut.
      intro rest hc hrest
      cases cs with
      | nil => exact h (by rw [hc]; rfl) (by rw [List.nil_append] at hrest; rw [hrest]; rfl)
      | cons d cs =>
        cases hrest
        exact hpair _ hc rfl

/-- **An ending between two parts of a text.** Each part is split on its own. -/
theorem splitLines_append_lineEnd {front back : List Char} {e : LineEnd} (h : e.Parts front back) :
    splitLines (front ++ e.text ++ back) = splitLines front ++ splitLines back := by
  have hunify : unifyNewlines (front ++ (e.text ++ back)) =
      unifyNewlines front ++ '\n' :: unifyNewlines back := by
    cases e with
    | lineFeed =>
      rw [unifyNewlines_append_of_uncut fun hlast => absurd hlast h]
      rfl
    | carriageReturn =>
      have hback : unifyNewlines ('\r' :: back) = '\n' :: unifyNewlines back := by
        rw [unifyNewlines]
        · rfl
        · rintro rest - rfl
          exact h rfl
      rw [unifyNewlines_append_of_uncut fun _ => by simp [LineEnd.text], ← hback]
      rfl
    | both =>
      rw [unifyNewlines_append_of_uncut fun _ => by simp [LineEnd.text]]
      rfl
  rw [splitLines, List.append_assoc, hunify, List.splitOn_append_cons_self, splitLines, splitLines]

/-- A text of one line is its only line. -/
theorem splitLines_eq_singleton {line : List Char} (h : OneLine line) :
    splitLines line = [line] := by
  rw [splitLines, unifyNewlines_eq_self h.2, List.splitOn_eq_singleton h.1]

/-- A line feed at the end of a text ends its last line, which is gone if a carriage return had
ended the line before already. -/
theorem exists_splitLines_lineFeed (front back : List Char) :
    ∃ lines, splitLines (front ++ '\n' :: back) = lines ++ splitLines back ∧
      (splitLines front = lines ∨ splitLines front = lines ++ [[]]) := by
  by_cases hlast : front.getLast? = some '\r'
  · obtain ⟨start, rfl⟩ := List.getLast?_eq_some_iff.mp hlast
    have hboth : splitLines (start ++ LineEnd.both.text ++ back) =
        splitLines start ++ splitLines back :=
      splitLines_append_lineEnd trivial
    have hreturn : splitLines (start ++ LineEnd.carriageReturn.text ++ []) =
        splitLines start ++ splitLines [] := by
      apply splitLines_append_lineEnd
      rintro ⟨⟩
    refine ⟨splitLines start, ?_, .inr ?_⟩
    · rw [← hboth, LineEnd.text, List.append_assoc, List.append_assoc]
      rfl
    · rw [LineEnd.text, List.append_nil] at hreturn
      exact hreturn
  · refine ⟨splitLines front, ?_, .inl rfl⟩
    rw [← splitLines_append_lineEnd (e := .lineFeed) hlast, LineEnd.text, List.append_assoc]
    rfl

/-! ## Lines that are joined -/

/-- A line, and more lines below it, each of them behind the ending of the line before it. -/
def joinLines (first : List Char) : List (LineEnd × List Char) → List Char
  | [] => first
  | (e, line) :: more => first ++ e.text ++ joinLines line more

/-- A lone carriage return in front of an empty line that ends with a line feed. -/
def Clash (a b : LineEnd × List Char) : Prop := a.1 = .carriageReturn ∧ a.2 = [] ∧ b.1 = .lineFeed

instance (a b : LineEnd × List Char) : Decidable (Clash a b) := inferInstanceAs (Decidable (_ ∧ _))

/-- No two endings that follow on each other clash. -/
def Apart (more : List (LineEnd × List Char)) : Prop := more.IsChain fun a b => ¬ Clash a b

instance (more : List (LineEnd × List Char)) : Decidable (Apart more) :=
  inferInstanceAs (Decidable (List.IsChain _ _))

variable {first line : List Char} {e : LineEnd} {more : List (LineEnd × List Char)}

/-- The ending in front of a line stands on its own if it does not clash with the next one. -/
theorem parts_joinLines (hfirst : OneLine first) (hline : OneLine line)
    (h : ∀ b ∈ more.head?, ¬ Clash (e, line) b) : e.Parts first (joinLines line more) := by
  cases e with
  | lineFeed =>
    intro hlast
    exact hfirst.2 (List.mem_of_getLast? hlast)
  | both => trivial
  | carriageReturn =>
    show (joinLines line more).head? ≠ some '\n'
    cases line with
    | cons c line =>
      have hc : c ≠ '\n' := (oneLine_cons.mp hline).1.1
      cases more <;> simpa [joinLines] using hc
    | nil =>
      cases more with
      | nil => simp [joinLines]
      | cons b more =>
        obtain ⟨e, next⟩ := b
        cases e with
        | lineFeed => exact absurd ⟨rfl, rfl, rfl⟩ (h _ rfl)
        | carriageReturn => simp [joinLines, LineEnd.text]
        | both => simp [joinLines, LineEnd.text]

/-- The first line is split off if its ending stands on its own. -/
theorem splitLines_joinLines_cons (hfirst : OneLine first) (hline : OneLine line)
    (h : ∀ b ∈ more.head?, ¬ Clash (e, line) b) :
    splitLines (joinLines first ((e, line) :: more)) =
      first :: splitLines (joinLines line more) := by
  rw [joinLines, splitLines_append_lineEnd (parts_joinLines hfirst hline h),
    splitLines_eq_singleton hfirst]
  rfl

/-- **Joined lines are split where they were joined**, whatever their endings, if none of these
clash. -/
theorem splitLines_joinLines (hfirst : OneLine first) (hmore : ∀ b ∈ more, OneLine b.2)
    (h : Apart more) : splitLines (joinLines first more) = first :: more.map Prod.snd := by
  induction more generalizing first with
  | nil => exact splitLines_eq_singleton hfirst
  | cons b more ih =>
    obtain ⟨e, line⟩ := b
    obtain ⟨hline, hmore⟩ := List.forall_mem_cons.mp hmore
    have hfit : ∀ b ∈ more.head?, ¬ Clash (e, line) b := by
      intro b hb
      obtain ⟨rest, rfl⟩ := List.head?_eq_some_iff.mp hb
      exact (List.isChain_cons_cons.mp h).1
    rw [splitLines_joinLines_cons hfirst hline hfit, ih hline hmore h.of_cons]
    rfl

/-- Two endings that clash are read as one, and the empty line between them is lost. -/
theorem joinLines_of_clash {a b : LineEnd × List Char} (h : Clash a b) :
    joinLines first (a :: b :: more) = joinLines first ((.both, b.2) :: more) := by
  obtain ⟨e, line⟩ := a
  obtain ⟨e', next⟩ := b
  obtain ⟨rfl, rfl, rfl⟩ := h
  simp [joinLines, LineEnd.text]

/-- Splitting never gives more lines than were joined, and gives fewer if endings clash. -/
theorem length_splitLines_joinLines {first : List Char} {more : List (LineEnd × List Char)}
    (hfirst : OneLine first) (hmore : ∀ b ∈ more, OneLine b.2) :
    (splitLines (joinLines first more)).length ≤ more.length + 1 ∧
      (¬ Apart more → (splitLines (joinLines first more)).length < more.length + 1) := by
  match more with
  | [] =>
    rw [joinLines, splitLines_eq_singleton hfirst]
    exact ⟨Nat.le_refl _, fun h => absurd .nil h⟩
  | [(e, line)] =>
    obtain ⟨hline, -⟩ := List.forall_mem_cons.mp hmore
    rw [splitLines_joinLines_cons hfirst hline (by simp), joinLines, splitLines_eq_singleton hline]
    exact ⟨Nat.le_refl _, fun h => absurd (.singleton _) h⟩
  | (e, line) :: b :: more =>
    obtain ⟨hline, hmore⟩ := List.forall_mem_cons.mp hmore
    by_cases hclash : Clash (e, line) b
    · have hjoined : ∀ c ∈ (LineEnd.both, b.2) :: more, OneLine c.2 :=
        List.forall_mem_cons.mpr (List.forall_mem_cons.mp hmore)
      have ih := (length_splitLines_joinLines hfirst hjoined).1
      rw [joinLines_of_clash hclash]
      simp only [List.length_cons] at ih ⊢
      omega
    · obtain ⟨hle, hlt⟩ := length_splitLines_joinLines hline hmore
      have hfit : ∀ b' ∈ (b :: more).head?, ¬ Clash (e, line) b' := by
        intro b' hb'
        cases hb'
        exact hclash
      rw [splitLines_joinLines_cons hfirst hline hfit, List.length_cons, List.length_cons]
      refine ⟨Nat.succ_le_succ hle, fun hapart => Nat.succ_lt_succ (hlt fun hrest => ?_)⟩
      exact hapart (List.isChain_cons_cons.mpr ⟨hclash, hrest⟩)
termination_by more.length

/-- **Nothing but a clash keeps joined lines from being split where they were joined.** -/
theorem splitLines_joinLines_iff (hfirst : OneLine first) (hmore : ∀ b ∈ more, OneLine b.2) :
    splitLines (joinLines first more) = first :: more.map Prod.snd ↔ Apart more := by
  refine ⟨fun h => ?_, splitLines_joinLines hfirst hmore⟩
  by_contra hapart
  have hlt := (length_splitLines_joinLines hfirst hmore).2 hapart
  rw [h, List.length_cons, List.length_map] at hlt
  exact Nat.lt_irrefl _ hlt

/-- With newlines unified, a text is its lines with a line feed between each two. -/
theorem unifyNewlines_eq_intercalate (cs : List Char) :
    unifyNewlines cs = ['\n'].intercalate (splitLines cs) :=
  (List.intercalate_splitOn '\n').symm

/-! ## Characters put in -/

/-- Each line of the text has its end in it: a place where characters of one line go to the line,
and leave the other lines as they are. -/
def HasLineEnds (text : List Char) : Prop :=
  ∀ {before : List (List Char)} {line : List Char} {after : List (List Char)},
    splitLines text = before ++ line :: after →
      ∃ front back, text = front ++ back ∧
        ∀ cs, OneLine cs → splitLines (front ++ cs ++ back) = before ++ (line ++ cs) :: after

theorem hasLineEnds_nil : HasLineEnds [] := by
  intro before line after h
  obtain ⟨rfl, h⟩ | ⟨first, -, h⟩ := List.cons_eq_append_iff.mp h
  · cases h
    refine ⟨[], [], rfl, fun cs hcs => ?_⟩
    rw [List.append_nil]
    exact splitLines_eq_singleton hcs
  · cases List.append_ne_nil_of_right_ne_nil first (List.cons_ne_nil line after) h.symm

/-- An ending that stands on its own still does so when something of one line is put in behind
it. -/
theorem LineEnd.Parts.insert {e : LineEnd} {front back cs : List Char}
    (h : e.Parts [] (front ++ back)) (hcs : OneLine cs) : e.Parts [] (front ++ cs ++ back) := by
  cases e with
  | lineFeed => exact h
  | both => trivial
  | carriageReturn =>
    show (front ++ cs ++ back).head? ≠ some '\n'
    have hhead : (front ++ back).head? ≠ some '\n' := h
    cases front with
    | cons c front => exact hhead
    | nil =>
      cases cs with
      | nil => exact hhead
      | cons c cs =>
        rintro ⟨⟩
        exact (oneLine_cons.mp hcs).1.1 rfl

/-- A text that starts with an ending starts with an empty line, which ends at once. -/
theorem HasLineEnds.lineEnd_append {e : LineEnd} {text : List Char} (h : HasLineEnds text)
    (hparts : e.Parts [] text) : HasLineEnds (e.text ++ text) := by
  intro before line after hsplit
  have hself : splitLines ([] ++ e.text ++ text) = splitLines [] ++ splitLines text :=
    splitLines_append_lineEnd hparts
  rw [List.nil_append] at hself
  rw [hself] at hsplit
  obtain ⟨rfl, hfirst⟩ | ⟨rest, rfl, hrest⟩ := List.cons_eq_append_iff.mp hsplit
  · cases hfirst
    refine ⟨[], e.text ++ text, rfl, fun cs hcs => ?_⟩
    have hcut : e.Parts cs text := by
      cases e with
      | lineFeed => exact fun hlast => hcs.2 (List.mem_of_getLast? hlast)
      | carriageReturn => exact hparts
      | both => trivial
    rw [List.nil_append, ← List.append_assoc, splitLines_append_lineEnd hcut,
      splitLines_eq_singleton hcs]
    rfl
  · obtain ⟨front, back, rfl, hinsert⟩ := h hrest
    refine ⟨e.text ++ front, back, (List.append_assoc ..).symm, fun cs hcs => ?_⟩
    have hbelow : splitLines ([] ++ e.text ++ (front ++ cs ++ back)) =
        splitLines [] ++ splitLines (front ++ cs ++ back) :=
      splitLines_append_lineEnd (hparts.insert hcs)
    rw [hinsert cs hcs, List.nil_append] at hbelow
    rw [List.append_assoc, List.append_assoc, ← List.append_assoc front, hbelow]
    rfl

/-- A character that ends no line goes to the first line. -/
theorem splitLines_cons {c : Char} (hfeed : c ≠ '\n') (hreturn : c ≠ '\r') (cs : List Char) :
    splitLines (c :: cs) = (splitLines cs).modifyHead (List.cons c) := by
  rw [splitLines, unifyNewlines, if_neg hreturn, List.splitOn_cons_eq_if_modifyHead,
    if_neg (by simp [hfeed]), splitLines]
  exact fun _ heq => absurd heq hreturn

theorem HasLineEnds.cons {c : Char} {text : List Char} (h : HasLineEnds text) (hfeed : c ≠ '\n')
    (hreturn : c ≠ '\r') : HasLineEnds (c :: text) := by
  intro before line after hsplit
  obtain ⟨first, rest, htext⟩ : ∃ first rest, splitLines text = first :: rest :=
    List.exists_cons_of_ne_nil (List.splitOn_ne_nil '\n' (unifyNewlines text))
  rw [splitLines_cons hfeed hreturn, htext, List.modifyHead_cons] at hsplit
  obtain ⟨rfl, hfirst⟩ | ⟨more, rfl, hmore⟩ := List.cons_eq_append_iff.mp hsplit
  · cases hfirst
    have hline : splitLines text = [] ++ first :: after := htext
    obtain ⟨front, back, rfl, hinsert⟩ := h hline
    refine ⟨c :: front, back, rfl, fun cs hcs => ?_⟩
    rw [List.cons_append, List.cons_append, splitLines_cons hfeed hreturn, hinsert cs hcs]
    rfl
  · have hline : splitLines text = (first :: more) ++ line :: after := by
      rw [htext, hmore, List.cons_append]
    obtain ⟨front, back, rfl, hinsert⟩ := h hline
    refine ⟨c :: front, back, rfl, fun cs hcs => ?_⟩
    rw [List.cons_append, List.cons_append, splitLines_cons hfeed hreturn, hinsert cs hcs]
    rfl

/-- **Each line of a text has its end in it**, where characters can be put in that go to the
line. -/
theorem hasLineEnds (text : List Char) : HasLineEnds text := by
  induction text using unifyNewlines.induct with
  | case1 => exact hasLineEnds_nil
  | case2 cs ih => exact ih.lineEnd_append (e := .both) trivial
  | case3 c cs hpair ih =>
    by_cases hfeed : c = '\n'
    · subst hfeed
      exact ih.lineEnd_append (e := .lineFeed) (by rintro ⟨⟩)
    · by_cases hreturn : c = '\r'
      · subst hreturn
        refine ih.lineEnd_append (e := .carriageReturn) fun hhead => ?_
        obtain ⟨rest, rfl⟩ := List.head?_eq_some_iff.mp hhead
        exact hpair rest rfl rfl
      · exact ih.cons hfeed hreturn

end Dialogue.Text
