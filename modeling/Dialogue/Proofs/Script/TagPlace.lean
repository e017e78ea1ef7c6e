import Dialogue.Proofs.Script.EntryBlanks
import Dialogue.Proofs.Script.FaultShown

/-!
# Where a malformed tag is shown

A fault of a tag is shown at the first tag of its kind that stands in the text of the entry
(`TagFault.offset`). The tag that is found malformed is that one if it is an `if` tag. The `time`
tag, however, is looked for when the `if` tag has been cut out, in another text than the one that
was written: the first tag of that one stands somewhere in the whole text (`EntryText.placeIn`), but
another one may stand in front of it there (`EntryText.HidesTime`). So the column of a report is
that of the malformed tag exactly when the tag is not hidden (`TagFault.offset_eq_place_iff`, and
`Graph.showsTag_of_ofText` for scripts).

Both texts are put together from the same pieces, in front of the `if` tag, in it and behind it.
Which tags start in a piece depends on what follows it only if the piece ends in an opener
(`Tag.behindKeyword?_stop`); so the first tag of either text is told from those of the pieces
(`Around.position?_eq`, `Around.position?_withoutCondition`), and the three cases are where the tag
that is read stands.
-/

namespace Dialogue

namespace Tag

variable {t : Tag} {a cs word : List Char} {c : Char}

/-! ## Positions -/

/-- Where the first tag of a text starts. -/
def position? (t : Tag) (cs : List Char) : Option Nat :=
  (t.find? cs).map fun (before, _) => before.length

@[simp] theorem position?_nil (t : Tag) : t.position? [] = none := rfl

theorem position?_cons (t : Tag) (c : Char) (cs : List Char) :
    t.position? (c :: cs) =
      if (t.behindKeyword? (c :: cs)).isSome then some 0 else (t.position? cs).map (· + 1) := by
  rw [position?, find?]
  cases t.behindKeyword? (c :: cs) with
  | some rest => rfl
  | none => cases hfind : t.find? cs <;> simp [position?, hfind]

/-- The character is in no keyword, so that no tag is opened across it. -/
def Stops (c : Char) : Prop := Text.isBlank c = true ∨ c = '[' ∨ c = ']'

theorem Stops.not_mem (hc : Stops c) (h : Text.sameIgnoringCase word t.keyword = true) :
    c ∉ word := by
  intro hmem
  obtain ⟨hblank, hopen, hclose⟩ := not_blank_of_mem_keyword h hmem
  rcases hc with hc | rfl | rfl
  · rw [hc] at hblank
    cases hblank
  · exact hopen rfl
  · exact hclose rfl

theorem behindKeyword?_append_isSome (hword : Text.sameIgnoringCase word t.keyword = true)
    (hc : (Text.isBlank c || c == ']') = true) (cs : List Char) :
    (t.behindKeyword? ('[' :: (word ++ c :: cs))).isSome := by
  have hlength := Text.length_eq_of_sameIgnoringCase hword
  rw [behindKeyword?, ← hlength, List.take_left, List.drop_left]
  simp [hword, hc]

/-- In front of a character that is in no keyword a tag starts if it does so without what follows,
or if the character ends the keyword. -/
theorem behindKeyword?_stop (hc : Stops c) (x : Char) (a b : List Char) :
    (t.behindKeyword? (x :: (a ++ c :: b))).isSome ↔
      (t.behindKeyword? (x :: a)).isSome ∨
        t.IsOpener (x :: a) ∧ (Text.isBlank c || c == ']') = true := by
  constructor
  · intro h
    obtain ⟨rest, hrest⟩ := Option.isSome_iff_exists.mp h
    obtain ⟨word, d, tail, heq, hword, rfl, hd⟩ := eq_of_behindKeyword? hrest
    obtain ⟨rfl, hsplit⟩ := List.cons.inj heq
    rcases List.append_eq_append_iff.mp hsplit with ⟨more, rfl, hmore⟩ | ⟨more, rfl, hmore⟩
    · -- The keyword does not go on behind the character.
      cases more with
      | nil =>
        cases hmore
        rw [List.append_nil] at hword
        exact .inr ⟨⟨rfl, hword⟩, hd⟩
      | cons y more =>
        cases hmore
        exact absurd (List.mem_append_right a List.mem_cons_self) (hc.not_mem hword)
    · cases more with
      | nil =>
        cases hmore
        exact .inr ⟨⟨rfl, by simpa using hword⟩, hd⟩
      | cons y more =>
        cases hmore
        exact .inl (behindKeyword?_append_isSome hword hd more)
  · rintro (h | ⟨⟨hx, hword⟩, hend⟩)
    · obtain ⟨rest, hrest⟩ := Option.isSome_iff_exists.mp h
      obtain ⟨word, d, tail, heq, hword, rfl, hd⟩ := eq_of_behindKeyword? hrest
      obtain ⟨rfl, rfl⟩ := List.cons.inj heq
      rw [List.append_assoc, List.cons_append]
      exact behindKeyword?_append_isSome hword hd _
    · cases hx
      exact behindKeyword?_append_isSome hword hend b

theorem behindKeyword?_bracket (x : Char) (a b : List Char) :
    (t.behindKeyword? (x :: (a ++ '[' :: b))).isSome ↔ (t.behindKeyword? (x :: a)).isSome := by
  have hbracket : (Text.isBlank '[' || '[' == ']') = false := by decide
  rw [behindKeyword?_stop (.inr (.inl rfl)), hbracket]
  simp

theorem behindKeyword?_end (hc : (Text.isBlank c || c == ']') = true) (x : Char) (a b : List Char) :
    (t.behindKeyword? (x :: (a ++ c :: b))).isSome ↔
      (t.behindKeyword? (x :: a)).isSome ∨ t.IsOpener (x :: a) := by
  have hends : Text.isBlank c = true ∨ c = ']' := by
    rwa [Bool.or_eq_true, beq_iff_eq] at hc
  rw [behindKeyword?_stop (hends.imp_right .inr), hc]
  simp

/-- A space ends a keyword. -/
theorem space_ends : (Text.isBlank ' ' || ' ' == ']') = true := by decide

/-- The earlier of two places, behind one more character. -/
theorem map_succ_or (p q : Option Nat) (n : Nat) :
    (p.or (q.map (n + ·))).map (· + 1) = (p.map (· + 1)).or (q.map (n + 1 + ·)) := by
  cases p with
  | some i => rfl
  | none =>
    cases q with
    | none => rfl
    | some i =>
      show some (n + i + 1) = some (n + 1 + i)
      rw [Nat.add_right_comm]

/-- The tags of a text up to an opening bracket are those of the text in front of it. -/
theorem position?_append_bracket (t : Tag) (a b : List Char) :
    t.position? (a ++ '[' :: b) =
      (t.position? a).or ((t.position? ('[' :: b)).map (a.length + ·)) := by
  induction a with
  | nil => simp
  | cons x a ih =>
    rw [List.cons_append, position?_cons, position?_cons, ih, List.length_cons]
    simp only [behindKeyword?_bracket]
    split
    · rfl
    · exact map_succ_or _ _ _

/-- The tags of a text up to a character that ends keywords are those of the text in front of a
blank. -/
theorem position?_append_end (hc : (Text.isBlank c || c == ']') = true) (a b : List Char) :
    t.position? (a ++ c :: b) =
      (t.position? (a ++ [' '])).or ((t.position? b).map (a.length + 1 + ·)) := by
  induction a with
  | nil =>
    have hbracket : c ≠ '[' := by
      rintro rfl
      exact absurd hc (by decide)
    rw [List.nil_append, position?_cons, behindKeyword?_of_ne t hbracket, List.nil_append,
      position?_cons, behindKeyword?_of_ne t (by decide)]
    simp [Nat.add_comm]
  | cons x a ih =>
    rw [List.cons_append, List.cons_append, position?_cons, position?_cons, ih, List.length_cons]
    simp only [behindKeyword?_end hc, behindKeyword?_end space_ends]
    split
    · rfl
    · exact map_succ_or _ _ _

theorem position?_append (t : Tag) (ha : '[' ∉ a) (b : List Char) :
    t.position? (a ++ b) = (t.position? b).map (a.length + ·) := by
  rw [position?, find?_append t ha, position?, Option.map_map, Option.map_map]
  congr 1
  funext found
  exact List.length_append

theorem position?_append_of_blank {bs : List Char} (hbs : ∀ c ∈ bs, Text.isBlank c = true)
    (ha : t.position? a ≠ none) : t.position? (a ++ bs) = t.position? a := by
  have hfind : t.find? a ≠ none := fun hnone => ha (by rw [position?, hnone]; rfl)
  rw [position?, find?_append_of_blank hbs fun _ => hfind, position?, Option.map_map]
  rfl

theorem position?_eq_none (t : Tag) (ha : '[' ∉ a) : t.position? a = none := by
  rw [position?, find?_eq_none t ha]
  rfl

theorem position?_append_space (ha : t.position? a ≠ none) :
    t.position? (a ++ [' ']) = t.position? a :=
  position?_append_of_blank (Text.isBlank_of_mem_spaces (n := 1)) ha

/-- Behind a text, blanks make the same tags of it whatever they are. -/
theorem position?_blanks {bs : List Char} (hbs : ∀ c ∈ bs, Text.isBlank c = true) (hne : bs ≠ [])
    (a : List Char) : t.position? (a ++ bs) = t.position? (a ++ [' ']) := by
  cases bs with
  | nil => exact absurd rfl hne
  | cons c bs =>
    obtain ⟨hc, hbs⟩ := List.forall_mem_cons.mp hbs
    have hrest : '[' ∉ bs := fun hmem => absurd (hbs _ hmem) (by decide)
    rw [position?_append_end (by rw [hc]; rfl), position?_eq_none t hrest]
    exact Option.or_none

theorem position?_trimEnd (t : Tag) (a : List Char) :
    t.position? (Text.trimEnd a ++ [' ']) = t.position? (a ++ [' ']) := by
  obtain ⟨bs, hbs, heq⟩ := Text.exists_eq_trimEnd_append a
  have hblanks : ∀ c ∈ bs ++ [' '], Text.isBlank c = true :=
    List.forall_mem_append.mpr ⟨hbs, Text.isBlank_of_mem_spaces (n := 1)⟩
  have hsame := position?_blanks (t := t) hblanks (by simp) (Text.trimEnd a)
  rw [← List.append_assoc, ← heq] at hsame
  exact hsame.symm

/-- A tag starts with a bracket in the text. -/
theorem bracket_of_position? {i : Nat} (h : t.position? cs = some i) : cs[i]? = some '[' := by
  obtain ⟨⟨before, rest⟩, hfind, rfl⟩ := Option.map_eq_some_iff.mp h
  obtain ⟨word, c, tail, rfl, -⟩ := eq_of_find? hfind
  simp

/-- In front of a blank a tag starts in the text. -/
theorem lt_of_position?_space {i : Nat} (h : t.position? (a ++ [' ']) = some i) : i < a.length := by
  obtain ⟨⟨before, rest⟩, hfind, rfl⟩ := Option.map_eq_some_iff.mp h
  obtain ⟨word, c, tail, heq, -, rfl, -⟩ := eq_of_find? hfind
  have hlength := congrArg List.length heq
  simp only [List.length_append, List.length_cons, List.length_nil] at hlength
  show before.length < a.length
  omega

/-- What is a tag only with a blank behind it is the opener of one. -/
theorem position?_space_eq_zero_iff (ha : t.position? a = none) :
    t.position? (a ++ [' ']) = some 0 ↔ t.IsOpener a := by
  cases a with
  | nil =>
    have hspace : t.position? ([] ++ [' ']) = none := position?_eq_none t (by decide)
    rw [hspace]
    simp [IsOpener]
  | cons x a =>
    have hnot : ¬ (t.behindKeyword? (x :: a)).isSome := by
      intro hstarts
      rw [position?_cons, if_pos hstarts] at ha
      cases ha
    have hstarts := (behindKeyword?_end (t := t) space_ends x a []).trans (or_iff_right hnot)
    rw [List.cons_append, position?_cons, ← hstarts]
    split
    · next hopens => simp [hopens]
    · next hopens =>
      simp only [hopens]
      cases t.position? (a ++ [' ']) <;> simp

/-! ## Around an `if` tag -/

theorem behindKeyword?_time_of_condition
    (hword : Text.sameIgnoringCase word Tag.condition.keyword = true) (cs : List Char) :
    Tag.time.behindKeyword? ('[' :: (word ++ cs)) = none := by
  have hlength := Text.length_eq_of_sameIgnoringCase hword
  match word, hlength with
  | c :: d :: [], _ =>
    have hc : c.toLower = 'i' := by
      simp only [Text.sameIgnoringCase, keyword, List.map_cons, beq_iff_eq,
        List.cons.injEq] at hword
      exact hword.1
    simp [behindKeyword?, keyword, Text.sameIgnoringCase, hc]

end Tag

/-! ## Places -/

namespace EntryText

/-- The text that the `time` tag is looked for in: what is left when the `if` tag is cut out. -/
def withoutCondition (cs : List Char) : List Char :=
  match Tag.condition.cut cs with
  | .ok (left, _) => left
  | .error _ => cs

/-- Where a place of the text without its `if` tag stands in the whole text: in front of the tag it
has kept its place, and behind the tag it is as far from the end as it was. -/
def placeIn (cs : List Char) (i : Nat) : Nat :=
  match Tag.condition.find? cs with
  | none => i
  | some (front, _) =>
    if i < (Text.trimEnd front).length then i
    else i + (cs.length - (withoutCondition cs).length)

/-- The `time` tag that is read is not the first one that stands in the text. -/
inductive HidesTime (cs : List Char) : Prop
  /-- It stands behind the `if` tag, which holds another one. -/
  | inside {front rest : List Char} : Tag.condition.find? cs = some (front, rest) →
      Tag.time.position? (front ++ [' ']) = none →
      Tag.time.position? (rest.takeWhile (· != ']') ++ [' ']) ≠ none → HidesTime cs
  /-- It is opened right in front of the `if` tag, and is a tag only when that is cut out. A text
  that starts with it and has no other one is left out, since its fault is shown at the start. -/
  | joined {front rest : List Char} : Tag.condition.find? cs = some (front, rest) →
      Tag.time.position? front = none → Tag.time.position? (front ++ [' ']) ≠ none →
      (Tag.time.IsOpener front → Tag.time.position? cs ≠ none) → HidesTime cs

/-- Where the tag that is read stands in the whole text there is a bracket, and it is the place of
the first tag of the whole text unless that hides the one that is read. -/
structure Shows (cs : List Char) (i : Nat) : Prop where
  bracket : cs[placeIn cs i]? = some '['
  first_iff : (Tag.time.position? cs).getD 0 = placeIn cs i ↔ ¬ HidesTime cs

/-- The text has an `if` tag that is closed: in front of it, in it behind the keyword, and behind it
stand these. -/
structure Around (cs front inner back : List Char) : Prop where
  find : Tag.condition.find? cs = some (front, inner ++ ']' :: back)
  close : ']' ∉ inner

namespace Around

variable {cs front inner back : List Char} {i : Nat}

theorem withoutCondition_eq (h : Around cs front inner back) :
    withoutCondition cs = joinPieces (Text.trimEnd front) (Text.trimStart back) := by
  rw [withoutCondition, Tag.cut_of_closed h.find h.close]

theorem exists_held (h : Around cs front inner back) :
    ∃ held, cs = front ++ (held ++ back) ∧ held.length = 3 + (inner.length + 1) := by
  obtain ⟨word, c, tail, rfl, hword, -⟩ := Tag.eq_of_find? h.find
  have hlength : word.length = 2 := Text.length_eq_of_sameIgnoringCase hword
  refine ⟨'[' :: (word ++ (inner ++ [']'])), by simp, ?_⟩
  simp only [List.length_append, List.length_cons, List.length_nil]
  omega

theorem length_eq (h : Around cs front inner back) :
    cs.length = front.length + 3 + (inner.length + 1) + back.length := by
  obtain ⟨held, rfl, hlength⟩ := h.exists_held
  rw [List.length_append, List.length_append, hlength]
  omega

theorem getElem?_front (h : Around cs front inner back) (hi : i < front.length) :
    cs[i]? = front[i]? := by
  obtain ⟨held, rfl, -⟩ := h.exists_held
  exact List.getElem?_append_left hi

theorem getElem?_back (h : Around cs front inner back) (i : Nat) :
    cs[front.length + 3 + (inner.length + 1) + i]? = back[i]? := by
  obtain ⟨held, rfl, hlength⟩ := h.exists_held
  rw [Nat.add_assoc front.length, ← hlength, Nat.add_assoc, List.getElem?_append_right (by omega),
    List.getElem?_append_right (by omega)]
  congr 1
  omega

theorem placeIn_eq (h : Around cs front inner back) (i : Nat) :
    placeIn cs i = if i < (Text.trimEnd front).length then i
      else i + (cs.length - (withoutCondition cs).length) := by
  rw [placeIn, h.find]

theorem hidesTime_iff (h : Around cs front inner back) :
    HidesTime cs ↔
      Tag.time.position? (front ++ [' ']) = none ∧ Tag.time.position? (inner ++ [' ']) ≠ none ∨
        Tag.time.position? front = none ∧ Tag.time.position? (front ++ [' ']) ≠ none ∧
          (Tag.time.IsOpener front → Tag.time.position? cs ≠ none) := by
  have hinner : (inner ++ ']' :: back).takeWhile (· != ']') = inner :=
    Text.takeWhile_bne_append_cons h.close back
  constructor
  · rintro (⟨hfind, hfront, hheld⟩ | ⟨hfind, hfront, hspace, hopener⟩)
    · cases h.find.symm.trans hfind
      rw [hinner] at hheld
      exact .inl ⟨hfront, hheld⟩
    · cases h.find.symm.trans hfind
      exact .inr ⟨hfront, hspace, hopener⟩
  · rintro (⟨hfront, hheld⟩ | ⟨hfront, hspace, hopener⟩)
    · exact .inside h.find hfront (by rwa [hinner])
    · exact .joined h.find hfront hspace hopener

/-- The first `time` tag of the whole text stands in front of the `if` tag, in it, or behind it. -/
theorem position?_eq (h : Around cs front inner back) :
    Tag.time.position? cs =
      (Tag.time.position? front).or
        (((Tag.time.position? (inner ++ [' '])).map (front.length + 3 + ·)).or
          ((Tag.time.position? back).map (front.length + 3 + (inner.length + 1) + ·))) := by
  obtain ⟨word, c, tail, heq, hword, -⟩ := Tag.eq_of_find? h.find
  have hlength : word.length = 2 := Text.length_eq_of_sameIgnoringCase hword
  have hopen : '[' ∉ word := Tag.Stops.not_mem (.inr (.inl rfl)) hword
  rw [heq, Tag.position?_append_bracket, Tag.position?_cons,
    Tag.behindKeyword?_time_of_condition hword, Tag.position?_append _ hopen,
    Tag.position?_append_end (by decide : (_ || ']' == ']') = true), hlength]
  rw [Option.isSome_none, if_neg Bool.false_ne_true, Option.map_map, Option.map_map, Option.map_or,
    Option.map_map]
  congr 2
  · refine Option.map_congr fun i _ => ?_
    show front.length + (2 + i + 1) = front.length + 3 + i
    omega
  · refine Option.map_congr fun i _ => ?_
    show front.length + (2 + (inner.length + 1 + i) + 1) = front.length + 3 + (inner.length + 1) + i
    omega

/-- That of the text without the `if` tag stands in front of the place of the `if` tag or behind
it. -/
theorem position?_withoutCondition (h : Around cs front inner back)
    (hback : Text.trimStart back ≠ []) :
    Tag.time.position? (withoutCondition cs) =
      (Tag.time.position? (front ++ [' '])).or
        ((Tag.time.position? (Text.trimStart back)).map
          ((withoutCondition cs).length - (Text.trimStart back).length + ·)) := by
  rw [h.withoutCondition_eq, ← Tag.position?_trimEnd]
  by_cases hfront : Text.trimEnd front = []
  · have hspace : Tag.time.position? ([] ++ [' ']) = none := Tag.position?_eq_none _ (by decide)
    rw [hfront, hspace, joinPieces_nil_left, Nat.sub_self, Option.none_or]
    simp only [Nat.zero_add, Option.map_id_fun', id_eq]
  · have hlength (b : List Char) : (Text.trimEnd front ++ ' ' :: b).length - b.length =
        (Text.trimEnd front).length + 1 := by
      rw [List.length_append, List.length_cons]
      omega
    rw [joinPieces_of_ne_nil hfront hback, Tag.position?_append_end Tag.space_ends, hlength]

/-! ### The three cases -/

/-- A tag that stands in front of the `if` tag as the text is written is shown where it stands. -/
theorem shows_in_front (h : Around cs front inner back)
    (hfront : Tag.time.position? front = some i) (hi : i < (Text.trimEnd front).length) :
    Shows cs i := by
  have hspace : Tag.time.position? (front ++ [' ']) = some i := by
    rw [Tag.position?_append_space (by rw [hfront]; exact Option.some_ne_none i),
      hfront]
  have hplace : placeIn cs i = i := by rw [h.placeIn_eq, if_pos hi]
  constructor
  case bracket =>
    rw [hplace, h.getElem?_front (hi.trans_le (Text.trimEnd_isPrefix front).length_le)]
    exact Tag.bracket_of_position? hfront
  case first_iff =>
    refine iff_of_true ?_ ?_
    · rw [h.position?_eq, hfront, hplace]
      rfl
    · rw [h.hidesTime_iff, hfront, hspace]
      simp

/-- A tag that is opened right in front of the `if` tag is shown where it stands only if that is the
start of the text and there is no other one. -/
theorem shows_opened (h : Around cs front inner back) (hfront : Tag.time.position? front = none)
    (hspace : Tag.time.position? (front ++ [' ']) = some i)
    (hi : i < (Text.trimEnd front).length) : Shows cs i := by
  have hplace : placeIn cs i = i := by rw [h.placeIn_eq, if_pos hi]
  have hlt := Tag.lt_of_position?_space hspace
  constructor
  case bracket =>
    have hbracket := Tag.bracket_of_position? hspace
    rw [List.getElem?_append_left hlt] at hbracket
    rw [hplace, h.getElem?_front hlt, hbracket]
  case first_iff =>
    have hstart : i = 0 ↔ Tag.time.IsOpener front := by
      rw [← Tag.position?_space_eq_zero_iff hfront, hspace, Option.some_inj]
    have hbehind : ∀ k, Tag.time.position? cs = some k → i < k := by
      intro k hk
      rw [h.position?_eq, hfront, Option.none_or] at hk
      rcases Option.or_eq_some_iff.mp hk with hk | ⟨-, hk⟩
      · obtain ⟨m, -, rfl⟩ := Option.map_eq_some_iff.mp hk
        omega
      · obtain ⟨m, -, rfl⟩ := Option.map_eq_some_iff.mp hk
        omega
    rw [h.hidesTime_iff, hplace, hfront, hspace, ← hstart]
    cases hcs : Tag.time.position? cs with
    | none => simp [eq_comm]
    | some k =>
      have hne := (hbehind k hcs).ne'
      simp [hne]

/-- A tag that stands behind the `if` tag is shown where it stands if there is none in the `if`
tag. -/
theorem shows_behind (h : Around cs front inner back)
    (hspace : Tag.time.position? (front ++ [' ']) = none) {k : Nat}
    (hk : Tag.time.position? (Text.trimStart back) = some k) :
    Shows cs ((withoutCondition cs).length - (Text.trimStart back).length + k) := by
  obtain ⟨blanks, hblanks, hsplit⟩ := Text.exists_eq_append_trimStart back
  have hopen : '[' ∉ blanks := fun hmem => absurd (hblanks _ hmem) (by decide)
  have hback : Tag.time.position? (blanks ++ Text.trimStart back) = some (blanks.length + k) := by
    rw [Tag.position?_append _ hopen, hk, Option.map_some]
  rw [← hsplit] at hback
  have hfront : Tag.time.position? front = none := by
    by_contra hsome
    have hsame := Tag.position?_append_space hsome
    exact hsome (hsame.symm.trans hspace)
  -- The text is as much shorter without the `if` tag as the end of it has moved.
  have hplace : placeIn cs ((withoutCondition cs).length - (Text.trimStart back).length + k) =
      front.length + 3 + (inner.length + 1) + (blanks.length + k) := by
    have hlength := h.length_eq
    have hlengthBack := congrArg List.length hsplit
    have hlengthFront := (Text.trimEnd_isPrefix front).length_le
    have hlengthLeft := length_joinPieces (Text.trimEnd front) (Text.trimStart back)
    rw [← h.withoutCondition_eq] at hlengthLeft
    rw [List.length_append] at hlengthBack
    rw [h.placeIn_eq, if_neg (by omega)]
    omega
  constructor
  case bracket =>
    rw [hplace, h.getElem?_back]
    exact Tag.bracket_of_position? hback
  case first_iff =>
    rw [h.hidesTime_iff, hplace, hspace, h.position?_eq, hfront, hback]
    cases hinner : Tag.time.position? (inner ++ [' ']) with
    | none => simp
    | some m =>
      have hlt := Tag.lt_of_position?_space hinner
      refine iff_of_false ?_ (by simp)
      show ¬ front.length + 3 + m = front.length + 3 + (inner.length + 1) + (blanks.length + k)
      omega

/-- The tag that is read stands in one of the pieces around the `if` tag. -/
theorem shows_of_position? (h : Around cs front inner back)
    (hi : Tag.time.position? (withoutCondition cs) = some i) : Shows cs i := by
  by_cases hback : Text.trimStart back = []
  · -- Nothing is left but what stands in front of the `if` tag.
    rw [h.withoutCondition_eq, hback, joinPieces_nil_right] at hi
    obtain ⟨blanks, hblanks, hsplit⟩ := Text.exists_eq_trimEnd_append front
    have hfront := Tag.position?_append_of_blank hblanks (by rw [hi]; exact Option.some_ne_none i)
    rw [← hsplit, hi] at hfront
    exact h.shows_in_front hfront (List.getElem?_eq_some_iff.mp (Tag.bracket_of_position? hi)).1
  rw [h.position?_withoutCondition hback] at hi
  cases hspace : Tag.time.position? (front ++ [' ']) with
  | none =>
    rw [hspace, Option.none_or] at hi
    obtain ⟨k, hk, rfl⟩ := Option.map_eq_some_iff.mp hi
    exact h.shows_behind hspace hk
  | some j =>
    rw [hspace, Option.some_or] at hi
    cases hi
    have hlt : i < (Text.trimEnd front).length := by
      rw [← Tag.position?_trimEnd] at hspace
      exact Tag.lt_of_position?_space hspace
    cases hfront : Tag.time.position? front with
    | none => exact h.shows_opened hfront hspace hlt
    | some k =>
      have hsame := Tag.position?_append_space (by rw [hfront]; exact Option.some_ne_none k)
      rw [hspace, hfront] at hsame
      cases hsame
      exact h.shows_in_front hfront hlt

end Around

variable {cs : List Char} {e : TagFault}

theorem withoutCondition_of_cut {left : List Char} {held : Option (List Char)}
    (h : Tag.condition.cut cs = .ok (left, held)) : withoutCondition cs = left := by
  rw [withoutCondition, h]

theorem tag_of_readCondition {held : Option (List Char)} (h : readCondition held = .error e) :
    e.tag = .condition := by
  cases held with
  | none => cases h
  | some inner =>
    rw [readCondition] at h
    split at h
    · cases h
      rfl
    · cases h

theorem tag_of_readSeconds {held : Option (List Char)} (h : readSeconds held = .error e) :
    e.tag = .time := by
  cases held with
  | none => cases h
  | some inner =>
    simp only [readSeconds] at h
    split at h
    · cases h
      rfl
    · split at h
      · cases h
      · cases h
        rfl

/-- A fault of the `if` tag is about one that stands in the text. -/
theorem of_condition_fault (h : ofText cs = .error e) (htag : e.tag = .condition) :
    Tag.condition.position? cs ≠ none := by
  intro hnone
  rw [Tag.position?, Option.map_eq_none_iff] at hnone
  have htime : e.tag = .time := by
    rw [ofText, Tag.cut_eq_self _ hnone] at h
    simp only [readCondition] at h
    split at h
    · next hcut =>
      cases h
      rcases Tag.cut_cases .time cs with ⟨-, hok⟩ | ⟨front, rest, -, -, herror⟩ |
        ⟨front, inner, back, -, -, hok⟩
      · cases hok.symm.trans hcut
      · cases herror.symm.trans hcut
        rfl
      · cases hok.symm.trans hcut
    · split at h
      · next hread =>
        cases h
        exact tag_of_readSeconds hread
      · cases h
  rw [htime] at htag
  cases htag

/-- A fault of the `time` tag is about one that stands in the text without the `if` tag, which is
the whole text or one with an `if` tag that is closed. -/
theorem of_time_fault (h : ofText cs = .error e) (htag : e.tag = .time) :
    Tag.time.position? (withoutCondition cs) ≠ none ∧
      (Tag.condition.find? cs = none ∧ withoutCondition cs = cs ∨
        ∃ front inner back, Around cs front inner back) := by
  have hfound {left : List Char} {held : Option (List Char)}
      (hcut : Tag.condition.cut cs = .ok (left, held)) :
      Tag.time.position? (withoutCondition cs) ≠ none := by
    rw [withoutCondition_of_cut hcut]
    intro hnone
    rw [Tag.position?, Option.map_eq_none_iff] at hnone
    -- Without a `time` tag the condition is all that can be wrong.
    rw [ofText, hcut] at h
    simp only [Tag.cut_eq_self _ hnone, readSeconds] at h
    split at h
    · next hcondition =>
      cases h
      rw [tag_of_readCondition hcondition] at htag
      cases htag
    · cases h
  rcases Tag.cut_cases .condition cs with ⟨hnone, hcut⟩ | ⟨front, rest, -, -, hcut⟩ |
    ⟨front, inner, back, hfind, hinner, hcut⟩
  · exact ⟨hfound hcut, .inl ⟨hnone, withoutCondition_of_cut hcut⟩⟩
  · rw [ofText, hcut] at h
    cases h
    cases htag
  · exact ⟨hfound hcut, .inr ⟨front, inner, back, hfind, hinner⟩⟩

end EntryText

namespace TagFault

/-- Where the tag that is found malformed starts in the text: the first `if` tag, and the first
`time` tag of the text without the `if` tag. -/
def place (e : TagFault) (cs : List Char) : Nat :=
  match e.tag with
  | .condition => (Tag.condition.position? cs).getD 0
  | .time => EntryText.placeIn cs ((Tag.time.position? (EntryText.withoutCondition cs)).getD 0)

/-- The fault is about a `time` tag that is not the first one that stands in the text. -/
def IsHidden (e : TagFault) (cs : List Char) : Prop := e.tag = .time ∧ EntryText.HidesTime cs

variable {cs : List Char} {e : TagFault}

theorem offset_eq (e : TagFault) (cs : List Char) : e.offset cs = (e.tag.position? cs).getD 0 := by
  rw [offset, Tag.position?]
  cases e.tag.find? cs <;> rfl

/-- What a fault of the `time` tag is shown at. -/
theorem shows_of_time (h : EntryText.ofText cs = .error e) (htag : e.tag = .time) :
    EntryText.Shows cs ((Tag.time.position? (EntryText.withoutCondition cs)).getD 0) := by
  obtain ⟨hsome, hcut⟩ := EntryText.of_time_fault h htag
  obtain ⟨i, hi⟩ := Option.ne_none_iff_exists'.mp hsome
  rw [hi, Option.getD_some]
  rcases hcut with ⟨hnone, hself⟩ | ⟨front, inner, back, haround⟩
  · -- Without an `if` tag the `time` tag is looked for in the whole text.
    rw [hself] at hi
    have hplace : EntryText.placeIn cs i = i := by rw [EntryText.placeIn, hnone]
    have hhides : ¬ EntryText.HidesTime cs := by
      rintro (⟨hfind, -⟩ | ⟨hfind, -⟩) <;> cases hnone.symm.trans hfind
    constructor
    case bracket =>
      rw [hplace]
      exact Tag.bracket_of_position? hi
    case first_iff =>
      rw [hi, hplace]
      exact iff_of_true rfl hhides
  · exact haround.shows_of_position? hi

/-- At the place of a fault there is the bracket that opens a tag. -/
theorem bracket_at_place (h : EntryText.ofText cs = .error e) : cs[e.place cs]? = some '[' := by
  rw [place]
  cases htag : e.tag with
  | condition =>
    obtain ⟨i, hi⟩ := Option.ne_none_iff_exists'.mp (EntryText.of_condition_fault h htag)
    show cs[(Tag.condition.position? cs).getD 0]? = some '['
    rw [hi]
    exact Tag.bracket_of_position? hi
  | time => exact (shows_of_time h htag).bracket

/-- **A fault is shown at its tag unless that is hidden.** -/
theorem offset_eq_place_iff (h : EntryText.ofText cs = .error e) :
    e.offset cs = e.place cs ↔ ¬ e.IsHidden cs := by
  rw [offset_eq, place, IsHidden]
  cases htag : e.tag with
  | condition => simp
  | time => simpa using (shows_of_time h htag).first_iff

end TagFault

/-! ## Columns -/

/-- The column, counted from one, of a place in the text behind the arrow of an entry. -/
def tagColumn (before : List Char) (place : Nat) : UInt32 := .ofNat (before.length + 2 + place + 1)

/-- The report is that of a fault of the entry that stands in the line, behind these blanks and an
arrow. It gives the column of the tag that is found malformed exactly when that is not hidden. -/
structure Report.ShowsTag (r : Report) (line : String × Nat) (before rest : List Char)
    (e : TagFault) : Prop where
  arrow : arrow? line.1.toList = some (before, rest)
  fault : EntryText.ofText rest = .error e
  code : r.code = e.code
  number : r.span.line = .ofNat line.2
  /-- At the place of the tag there is a bracket in the line. -/
  bracket : line.1.toList[before.length + 2 + e.place rest]? = some '['
  /-- The first tag of its kind is shown. -/
  first : r.span.column = tagColumn before ((e.tag.position? rest).getD 0)
  shown : ¬ e.IsHidden rest → r.span.column = tagColumn before (e.place rest)
  hidden : e.IsHidden rest → line.1.length < UInt32.size →
    r.span.column ≠ tagColumn before (e.place rest)

/-- In lines that columns can count, two places of an entry have two columns. -/
theorem tagColumn_inj {line : String} {before rest : List Char} {i j : Nat}
    (harrow : arrow? line.toList = some (before, rest)) (hline : line.length < UInt32.size)
    (hi : i < rest.length) (hj : j < rest.length) (h : tagColumn before i = tagColumn before j) :
    i = j := by
  have hlength := length_of_arrow? harrow
  have hsize : line.length < 4294967296 := hline
  have hnat := congrArg UInt32.toNat h
  rw [tagColumn, tagColumn, UInt32.toNat_ofNat', UInt32.toNat_ofNat', Nat.mod_eq_of_lt (by omega),
    Nat.mod_eq_of_lt (by omega)] at hnat
  omega

theorem Report.showsTag_of_tag {s : Source} {line : String × Nat}
    {before rest : List Char} {e : TagFault} (harrow : arrow? line.1.toList = some (before, rest))
    (he : EntryText.ofText rest = .error e) :
    (Report.ofFault s (.tag e) (.point (.ofNat line.2)
      (.ofNat (before.length + 2 + e.offset rest + 1)))).ShowsTag line before rest e := by
  have hbracket := TagFault.bracket_at_place he
  constructor
  case arrow => exact harrow
  case fault => exact he
  case code => rfl
  case number => rfl
  case bracket =>
    rw [(arrow?_eq_some harrow).2, Nat.add_assoc, List.getElem?_append_right (Nat.le_add_right _ _),
      Nat.add_sub_cancel_left, Nat.add_comm 2]
    exact hbracket
  case first => rw [← TagFault.offset_eq]; rfl
  case shown =>
    intro hshown
    rw [← (TagFault.offset_eq_place_iff he).mpr hshown]
    rfl
  case hidden =>
    intro hhidden hline hcolumn
    have hplace := (List.getElem?_eq_some_iff.mp hbracket).1
    have heq := tagColumn_inj harrow hline (TagFault.offset_lt he) hplace hcolumn
    exact (TagFault.offset_eq_place_iff he).mp heq hhidden

namespace Graph

/-- **The column of a malformed tag.** The report of a tag is that of an entry of the script. Its
column is that of the first tag of the kind in the text of the entry, and this is the one that is
found malformed exactly when it does not hide that one. -/
theorem showsTag_of_ofText {name text : String} {r : Report} (h : ofText name text = .error r)
    (hcode : r.code = ⟨200⟩ ∨ r.code = ⟨201⟩) :
    ∃ line ∈ (Source.ofText name text).numbered, ∃ before rest e,
      r.ShowsTag line before rest e := by
  rw [ofText, ofSource_eq_ofLines] at h
  split at h
  · next fault span hfault =>
    cases h
    have harises := arises_of_ofLines hfault
    have hfaultCode : fault.code = ⟨200⟩ ∨ fault.code = ⟨201⟩ := hcode
    cases harises with
    | tag hline harrow he => exact ⟨_, hline, _, _, _, Report.showsTag_of_tag harrow he⟩
    | openIf _ _ hopen =>
      rw [hopen] at hfaultCode
      exact absurd hfaultCode (by decide)
    | @command _ _ e => cases e <;> simp [ScriptFault.code, CommandFault.code] at hfaultCode
    | _ => simp [ScriptFault.code] at hfaultCode
  · cases h

/-- A script with an entry whose `if` tag holds a `time` tag, in front of the one that is read. -/
def pierScript : String := "title: A\n---\n-> a [if x [time 1] [time soon]\n==="

/-- The report of the second `time` tag, which gives the column of the first one. -/
def pierReport : Report :=
  .ofCode "test.skein" ⟨201⟩ "invalid seconds 'soon' in [time] tag" (.point 3 12)
    "-> a [if x [time 1] [time soon]" none

theorem showsTag_of_ofText_pierScript :
    ofText "test.skein" pierScript = .error pierReport ∧ pierReport.code = ⟨201⟩ ∧
      ∃ line ∈ (Source.ofText "test.skein" pierScript).numbered, ∃ before rest e,
        pierReport.ShowsTag line before rest e := by
  have hpier : ofText "test.skein" pierScript = .error pierReport :=
    ofText_eq_error_of_report (by decide +kernel)
  exact ⟨hpier, rfl, showsTag_of_ofText hpier (.inr rfl)⟩

/-- The seconds `soon` stand in the tag of column 21, and column 12 is shown. -/
theorem another_tag_shown_pierScript :
    ofText "test.skein" pierScript = .error pierReport ∧ pierReport.span.column = 12 ∧
      arrow? pierReport.sourceLine.toList = some ([], " a [if x [time 1] [time soon]".toList) ∧
      EntryText.ofText " a [if x [time 1] [time soon]".toList = .error (.badSeconds "soon") ∧
      tagColumn [] ((TagFault.badSeconds "soon").place " a [if x [time 1] [time soon]".toList) =
        21 := by
  have hpier : ofText "test.skein" pierScript = .error pierReport :=
    ofText_eq_error_of_report (by decide +kernel)
  have hfault : (match EntryText.ofText " a [if x [time 1] [time soon]".toList with
      | .error e => some e
      | .ok _ => none) = some (TagFault.badSeconds "soon") := by decide +kernel
  refine ⟨hpier, rfl, by decide +kernel, ?_, by decide +kernel⟩
  split at hfault
  · next he =>
    cases hfault
    exact he
  · cases hfault

end Graph

end Dialogue
