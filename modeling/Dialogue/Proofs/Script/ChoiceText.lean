import Dialogue.Proofs.Script.Printable
import Dialogue.Script.ChoiceText

/-!
# Entries are read as they were written

Behind its arrow an entry is written as its label, its `if` tag and the `time` tag of its choice.
The reader looks for the tags in that order and closes up what is left, so after the first cut the
text is again a label in front of at most one tag (`exists_front_of_cut`). With both tags cut out
the label is left (`EntryText.ofText_render`).
-/

namespace Dialogue

variable {numeral : Float → List Char}

/-! ## Keywords -/

/-- A blank has no other case. -/
theorem Text.toLower_of_isBlank {c : Char} (h : isBlank c = true) : c.toLower = c := by
  refine dif_neg fun hcapital => ?_
  obtain ⟨hlow, hhigh⟩ : 65 ≤ c.toNat ∧ c.toNat ≤ 90 := by
    simpa [UInt32.le_iff_toNat_le] using hcapital
  simp only [isBlank, blankCodes, inRanges] at h
  grind

theorem Text.length_eq_of_sameIgnoringCase {a b : List Char} (h : sameIgnoringCase a b = true) :
    a.length = b.length := by
  have hmaps := congrArg List.length (eq_of_beq h)
  rwa [List.length_map, List.length_map] at hmaps

/-- A character that is in no case of the letters of a word is in no case of the word. -/
theorem Text.not_mem_of_sameIgnoringCase {word keyword : List Char}
    (h : sameIgnoringCase word keyword = true) {c : Char}
    (hc : c.toLower ∉ keyword.map Char.toLower) : c ∉ word := by
  intro hmem
  rw [← eq_of_beq h] at hc
  exact hc (List.mem_map_of_mem hmem)

/-- A word of no blanks holds none in any case. -/
theorem Text.not_blank_of_sameIgnoringCase {word keyword : List Char}
    (h : sameIgnoringCase word keyword = true)
    (hkeyword : (keyword.map Char.toLower).all (fun k => !isBlank k) = true) {c : Char}
    (hc : c ∈ word) : isBlank c = false := by
  rw [Bool.eq_false_iff]
  intro hblank
  refine not_mem_of_sameIgnoringCase h ?_ hc
  rw [toLower_of_isBlank hblank]
  intro hmem
  have hletter := List.all_eq_true.mp hkeyword c hmem
  rw [hblank] at hletter
  cases hletter

namespace Tag

/-- A keyword in any case holds neither blanks nor brackets. -/
theorem not_blank_of_mem_keyword {t : Tag} {word : List Char}
    (h : Text.sameIgnoringCase word t.keyword = true) {c : Char} (hc : c ∈ word) :
    Text.isBlank c = false ∧ c ≠ '[' ∧ c ≠ ']' := by
  refine ⟨Text.not_blank_of_sameIgnoringCase h (by cases t <;> decide) hc, ?_, ?_⟩
  · rintro rfl
    exact Text.not_mem_of_sameIgnoringCase h (by cases t <;> decide) hc
  · rintro rfl
    exact Text.not_mem_of_sameIgnoringCase h (by cases t <;> decide) hc

/-! ## Finding a tag -/

/-- A tag as it is written, without the space before it. -/
def text (t : Tag) (body : List Char) : List Char := '[' :: (t.keyword ++ ' ' :: (body ++ [']']))

theorem tagText_keyword (t : Tag) (body : List Char) :
    tagText t.keyword body = ' ' :: t.text body := by
  simp [tagText, text]

/-- A tag that may be missing. -/
def text? (t : Tag) (body : Option (List Char)) : List Char := (body.map t.text).getD []

/-- A tag that may be missing, with the space before it. -/
def spaced? (t : Tag) (body : Option (List Char)) : List Char :=
  (body.map fun b => ' ' :: t.text b).getD []

theorem trimStart_spaced? (t : Tag) (body : Option (List Char)) :
    Text.trimStart (t.spaced? body) = t.text? body := by
  have hspace : Text.isBlank ' ' = true := by decide
  have hbracket : Text.isBlank '[' = false := by decide
  cases body <;> simp [spaced?, text?, text, Text.trimStart, hspace, hbracket]

theorem behindKeyword?_of_ne (t : Tag) {c : Char} (h : c ≠ '[') (cs : List Char) :
    t.behindKeyword? (c :: cs) = none := by
  simp [behindKeyword?, h]

/-- No tag starts in a text without an opening bracket. -/
theorem find?_append (t : Tag) {a : List Char} (h : '[' ∉ a) (b : List Char) :
    t.find? (a ++ b) = (t.find? b).map fun (before, rest) => (a ++ before, rest) := by
  induction a with
  | nil => simp
  | cons c a ih =>
    obtain ⟨hc, ha⟩ := not_or.1 (mt List.mem_cons.2 h)
    rw [List.cons_append, find?, behindKeyword?_of_ne t (Ne.symm hc)]
    dsimp only
    rw [ih ha, Option.map_map]
    rfl

theorem find?_eq_none (t : Tag) {a : List Char} (h : '[' ∉ a) : t.find? a = none := by
  simpa [find?] using t.find?_append h []

/-- A text that starts with a tag starts with a bracket and the keyword, which ends there. -/
theorem eq_of_behindKeyword? {t : Tag} {cs rest : List Char} (h : t.behindKeyword? cs = some rest) :
    ∃ word c tail, cs = '[' :: (word ++ rest) ∧ Text.sameIgnoringCase word t.keyword = true ∧
      rest = c :: tail ∧ (Text.isBlank c || c == ']') = true := by
  cases cs with
  | nil => cases h
  | cons b cs =>
    rw [behindKeyword?] at h
    split at h
    · next hopen =>
      obtain ⟨rfl, hword⟩ := hopen
      split at h
      · cases h
      · next c tail hdrop =>
        split at h
        · next hc =>
          cases h
          refine ⟨_, c, tail, ?_, hword, rfl, hc⟩
          rw [← hdrop, List.take_append_drop]
        · cases h
    · cases h

theorem eq_of_find? {t : Tag} {cs before rest : List Char} (h : t.find? cs = some (before, rest)) :
    ∃ word c tail, cs = before ++ '[' :: (word ++ rest) ∧
      Text.sameIgnoringCase word t.keyword = true ∧
      rest = c :: tail ∧ (Text.isBlank c || c == ']') = true := by
  induction cs generalizing before with
  | nil => cases h
  | cons b cs ih =>
    rw [find?] at h
    split at h
    · next hbehind =>
      cases h
      exact eq_of_behindKeyword? hbehind
    · obtain ⟨⟨before', rest'⟩, hfind, heq⟩ := Option.map_eq_some_iff.mp h
      cases heq
      obtain ⟨word, c, tail, rfl, hword, hrest, hc⟩ := ih hfind
      exact ⟨word, c, tail, rfl, hword, hrest, hc⟩

/-- A tag as it is written with these letters for its keyword. -/
def written (word body : List Char) : List Char := '[' :: (word ++ ' ' :: (body ++ [']']))

/-- A tag is found in any case of its keyword. -/
theorem find?_written {t : Tag} {word : List Char}
    (hword : Text.sameIgnoringCase word t.keyword = true) (body after : List Char) :
    t.find? (written word body ++ after) = some ([], ' ' :: (body ++ ']' :: after)) := by
  have hlength := Text.length_eq_of_sameIgnoringCase hword
  have hblank : Text.isBlank ' ' = true := by decide
  simp [written, find?, behindKeyword?, ← hlength, hword, hblank]

/-- A `time` tag is not taken for an `if` tag, and is passed over. -/
theorem find?_condition_written_time {word body : List Char}
    (hword : Text.sameIgnoringCase word Tag.time.keyword = true) (hbody : '[' ∉ body)
    (after : List Char) :
    Tag.condition.find? (written word body ++ after) =
      (Tag.condition.find? after).map fun (before, rest) =>
        (written word body ++ before, rest) := by
  obtain ⟨c, d, word, rfl⟩ : ∃ c d rest, word = c :: d :: rest := by
    have hlength := Text.length_eq_of_sameIgnoringCase hword
    match word, hlength with
    | c :: d :: rest, _ => exact ⟨c, d, rest, rfl⟩
  have hkeyword (rest : List Char) :
      Tag.condition.behindKeyword? ('[' :: c :: d :: rest) = none := by
    have hc : c.toLower = 't' := by
      simp only [Text.sameIgnoringCase, keyword, List.map_cons, beq_iff_eq,
        List.cons.injEq] at hword
      exact hword.1
    simp [behindKeyword?, keyword, Text.sameIgnoringCase, hc]
  have hopen : '[' ∉ (c :: d :: word) ++ ' ' :: (body ++ [']']) := by
    have hletters : '[' ∉ c :: d :: word := fun hmem =>
      (not_blank_of_mem_keyword hword hmem).2.1 rfl
    simp only [List.mem_append, List.mem_cons, hbody, not_or] at hletters ⊢
    simpa using hletters
  have hrest := Tag.condition.find?_append hopen after
  simp only [List.cons_append, List.append_assoc] at hrest
  simp only [written, List.cons_append, List.append_assoc]
  rw [find?, hkeyword, hrest, Option.map_map]
  rfl

theorem find?_condition_text_time {body : List Char} (h : '[' ∉ body) :
    Tag.condition.find? (Tag.time.text body) = none := by
  have hfind := find?_condition_written_time (Text.sameIgnoringCase_self Tag.time.keyword) h []
  rwa [List.append_nil] at hfind

end Tag

/-! ## Joining pieces -/

@[simp] theorem joinPieces_nil_left (b : List Char) : joinPieces [] b = b := by simp [joinPieces]

@[simp] theorem joinPieces_nil_right (a : List Char) : joinPieces a [] = a := by simp [joinPieces]

theorem joinPieces_of_ne_nil {a b : List Char} (ha : a ≠ []) (hb : b ≠ []) :
    joinPieces a b = a ++ ' ' :: b := by
  simp [joinPieces, ha, hb]

theorem length_joinPieces (a b : List Char) :
    a.length + b.length ≤ (joinPieces a b).length ∧
      (joinPieces a b).length ≤ a.length + b.length + 1 := by
  rw [joinPieces]
  split
  · simp
  · simp only [List.length_append, List.length_cons]
    omega

namespace Tag

/-! ## Cutting a tag -/

theorem cut_eq_self (t : Tag) {a : List Char} (h : t.find? a = none) : t.cut a = .ok (a, none) := by
  simp [cut, h]

theorem cut_of_closed {t : Tag} {cs before inner after : List Char}
    (h : t.find? cs = some (before, inner ++ ']' :: after)) (hinner : ']' ∉ inner) :
    t.cut cs = .ok (joinPieces (Text.trimEnd before) (Text.trimStart after), some inner) := by
  simp only [cut, h, Text.takeWhile_bne_append_cons hinner, Text.dropWhile_bne_append_cons hinner]

/-- A tag behind a text without tags is cut out. -/
theorem cut_written {t : Tag} {word front body : List Char}
    (hword : Text.sameIgnoringCase word t.keyword = true) (hfront : '[' ∉ front)
    (hbody : ']' ∉ body) (after : List Char) :
    t.cut (front ++ (written word body ++ after)) =
      .ok (joinPieces (Text.trimEnd front) (Text.trimStart after), some (' ' :: body)) := by
  have hfind : t.find? (front ++ (written word body ++ after)) =
      some (front, ' ' :: body ++ ']' :: after) := by
    rw [find?_append t hfront, find?_written hword]
    simp
  exact cut_of_closed hfind (by simpa using hbody)

theorem cut_text (t : Tag) {front body : List Char} (hfront : '[' ∉ front) (hbody : ']' ∉ body)
    (after : List Char) :
    t.cut (front ++ (t.text body ++ after)) =
      .ok (joinPieces (Text.trimEnd front) (Text.trimStart after), some (' ' :: body)) :=
  cut_written (Text.sameIgnoringCase_self t.keyword) hfront hbody after

end Tag

namespace EntryText

/-! ## The text of an entry -/

/-- Joining puts at most a space between the pieces. -/
theorem exists_front_of_joinPieces {a : List Char} (ha : '[' ∉ a) (b : List Char) :
    ∃ front, '[' ∉ front ∧ Text.trim front = Text.trim a ∧ joinPieces a b = front ++ b := by
  rw [joinPieces]
  split
  · exact ⟨a, ha, rfl, rfl⟩
  · refine ⟨a ++ [' '], ?_, Text.trim_append_space a, by simp⟩
    simpa using ha

/-- Behind the arrow a label without brackets stands between blanks, in front of a tag or at the
end. -/
theorem label_between_blanks {label : List Char} (h : Text.Unbracketed label) :
    '[' ∉ ' ' :: label ++ [' '] ∧ Text.trim (' ' :: label ++ [' ']) = label := by
  constructor
  · simpa using h.noOpen
  · rw [Text.trim_append_space, Text.trim_space_cons]
    exact h.trimmed

/-- Once the `if` tag is cut out, the `time` tag stands behind a text that is the label but for
blanks. -/
theorem exists_front_of_cut {label : List Char} {condition time : Option (List Char)}
    (hlabel : Text.Unbracketed label) (hcondition : ∀ c ∈ condition, ']' ∉ c)
    (htime : ∀ t ∈ time, '[' ∉ t) :
    ∃ front, '[' ∉ front ∧ Text.trim front = label ∧
      Tag.condition.cut
          (' ' :: label ++ Tag.condition.spaced? condition ++ Tag.time.spaced? time) =
        .ok (front ++ Tag.time.text? time, condition.map (' ' :: ·)) := by
  obtain ⟨hopen, htrim⟩ := label_between_blanks hlabel
  cases condition with
  | none =>
    -- Without an `if` tag the text stays as it is.
    cases time with
    | none =>
      have hopen' : '[' ∉ ' ' :: label := fun h => hopen (List.mem_append_left _ h)
      refine ⟨' ' :: label, hopen', ?_, ?_⟩
      · rw [← Text.trim_append_space]
        exact htrim
      · simpa [Tag.spaced?, Tag.text?] using
          Tag.condition.cut_eq_self (Tag.condition.find?_eq_none hopen')
    | some t =>
      refine ⟨' ' :: label ++ [' '], hopen, htrim, ?_⟩
      have hfind : Tag.condition.find? ((' ' :: label ++ [' ']) ++ Tag.time.text t) = none := by
        rw [Tag.condition.find?_append hopen, Tag.find?_condition_text_time (htime t rfl)]
        rfl
      simpa [Tag.spaced?, Tag.text?] using Tag.condition.cut_eq_self hfind
  | some c =>
    -- The cut joins the label and the `time` tag again.
    have hopen' : '[' ∉ Text.trimEnd (' ' :: label ++ [' ']) := fun h =>
      hopen ((Text.trimEnd_isPrefix _).subset h)
    obtain ⟨front, hfront, hfrontTrim, hjoin⟩ :=
      exists_front_of_joinPieces hopen' (Tag.time.text? time)
    rw [Text.trim_trimEnd, htrim] at hfrontTrim
    refine ⟨front, hfront, hfrontTrim, ?_⟩
    have hcut := Tag.condition.cut_text hopen (hcondition c rfl) (Tag.time.spaced? time)
    rw [Tag.trimStart_spaced?, hjoin] at hcut
    simpa [Tag.spaced?] using hcut

/-- The `time` tag is cut out from behind the label. -/
theorem exists_rest_of_cut {front : List Char} {time : Option (List Char)} (hfront : '[' ∉ front)
    (htime : ∀ t ∈ time, ']' ∉ t) :
    ∃ rest, Text.trim rest = Text.trim front ∧
      Tag.time.cut (front ++ Tag.time.text? time) = .ok (rest, time.map (' ' :: ·)) := by
  cases time with
  | none =>
    refine ⟨front, rfl, ?_⟩
    simpa [Tag.text?] using Tag.time.cut_eq_self (Tag.time.find?_eq_none hfront)
  | some t =>
    refine ⟨Text.trimEnd front, Text.trim_trimEnd front, ?_⟩
    simpa [Tag.text?, joinPieces, Text.trimStart] using Tag.time.cut_text hfront (htime t rfl) []

/-- What an entry says has been read from the two tags and from what is left without them. -/
theorem ofText_eq_ok {cs : List Char} {e : EntryText} (h : ofText cs = .ok e) :
    ∃ afterIf afterTime condition seconds, Tag.condition.cut cs = .ok (afterIf, condition) ∧
      Tag.time.cut afterIf = .ok (afterTime, seconds) ∧ e.label = Text.trim afterTime ∧
      readCondition condition = .ok e.condition ∧ readSeconds seconds = .ok e.seconds := by
  rw [ofText] at h
  split at h
  · cases h
  · next afterIf inner hcutIf =>
    split at h
    · cases h
    · next condition hcondition =>
      split at h
      · cases h
      · next afterTime inner' hcutTime =>
        split at h
        · cases h
        · next seconds hseconds =>
          cases h
          exact ⟨afterIf, afterTime, inner, inner', hcutIf, hcutTime, rfl, hcondition, hseconds⟩

theorem readCondition_of_trimmed {condition : Option (List Char)}
    (h : ∀ c ∈ condition, Text.Trimmed c ∧ c ≠ []) :
    readCondition (condition.map (' ' :: ·)) = .ok condition := by
  cases condition with
  | none => rfl
  | some c =>
    obtain ⟨htrim, hne⟩ := h c rfl
    simp [readCondition, htrim.trim_space_cons, hne]

theorem readSeconds_of_denotes {timeLimit : Option Float}
    (h : ∀ t ∈ timeLimit, Denotes (numeral t) t ∧ 0 ≤ t) :
    readSeconds ((timeLimit.map numeral).map (' ' :: ·)) = .ok timeLimit := by
  cases timeLimit with
  | none => rfl
  | some t =>
    obtain ⟨hd, hle⟩ := h t rfl
    simp [readSeconds, hd.trimmed.trim_space_cons, hd.readNumber?, hle]

/-- **Entries.** The text of an entry is read as its label, its condition and the time limit of its
choice. -/
theorem ofText_spaced? {label : List Char} {condition : Option (List Char)}
    {timeLimit : Option Float} (hlabel : Text.Unbracketed label)
    (hcondition : ∀ c ∈ condition, Text.Unbracketed c ∧ c ≠ [])
    (htime : ∀ t ∈ timeLimit, Denotes (numeral t) t ∧ 0 ≤ t) :
    ofText (' ' :: label ++ Tag.condition.spaced? condition ++
        Tag.time.spaced? (timeLimit.map numeral)) =
      .ok ⟨label, condition, timeLimit⟩ := by
  have hnumeral : ∀ t ∈ timeLimit.map numeral, '[' ∉ t ∧ ']' ∉ t := by
    intro t ht
    obtain ⟨x, hx, rfl⟩ := Option.map_eq_some_iff.1 ht
    exact ⟨(htime x hx).1.not_mem (by decide), (htime x hx).1.not_mem (by decide)⟩
  obtain ⟨front, hopen, htrim, hcutIf⟩ := exists_front_of_cut hlabel
    (fun c hc => (hcondition c hc).1.noClose) (fun t ht => (hnumeral t ht).1)
  obtain ⟨rest, hrest, hcutTime⟩ := exists_rest_of_cut hopen fun t ht => (hnumeral t ht).2
  have hreadCondition := readCondition_of_trimmed fun c hc =>
    ⟨(hcondition c hc).1.trimmed, (hcondition c hc).2⟩
  rw [htrim] at hrest
  simp only [ofText, hcutIf, hreadCondition, hcutTime, readSeconds_of_denotes htime, hrest]

end EntryText

end Dialogue
