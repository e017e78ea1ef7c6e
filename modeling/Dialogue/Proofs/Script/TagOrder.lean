import Dialogue.Proofs.Script.EntryBlanks

/-!
# Tags in any order

The two tags of an entry may stand anywhere in its text and in either order, and they come out the
same (`EntryText.ofText_tags`). What stands around them are the pieces of the label: the label is
made of those that hold something, without the blanks around them and with one space in between
(`Text.label`).

A tag is cut out by joining what stands around it, so the second tag is looked for in another text
than the one that was written. Both orders are led back to one law of joining, that it may be done
before or after trimming (`trim_joinPieces`): the first cut leaves the second tag between two texts
which are, but for blanks, single pieces or two pieces joined (`exists_joinPieces_front`,
`exists_joinPieces_back`), and joining is associative.
-/

namespace Dialogue

/-! ## Pieces of a label -/

/-- The label that some pieces of a text make. -/
def Text.label (pieces : List (List Char)) : List Char :=
  [' '].intercalate ((pieces.map trim).filter (· ≠ []))

theorem joinPieces_assoc (a b c : List Char) :
    joinPieces (joinPieces a b) c = joinPieces a (joinPieces b c) := by
  by_cases ha : a = []
  · simp [ha]
  by_cases hb : b = []
  · simp [hb]
  by_cases hc : c = []
  · simp [hc]
  simp [joinPieces, ha, hb, hc]

/-- A label is joined from its pieces one by one. -/
theorem Text.label_cons (p : List Char) (pieces : List (List Char)) :
    label (p :: pieces) = joinPieces (trim p) (label pieces) := by
  rw [label, label, List.map_cons]
  by_cases hp : trim p = []
  · rw [List.filter_cons_of_neg (by simpa using hp), hp, joinPieces_nil_left]
  rw [List.filter_cons_of_pos (by simpa using hp)]
  cases hrest : (pieces.map trim).filter (· ≠ []) with
  | nil => simp [List.intercalate]
  | cons q rest =>
    have hq : q ≠ [] := by
      have hmem : q ∈ (pieces.map trim).filter (· ≠ []) := hrest ▸ List.mem_cons_self
      simpa using (List.mem_filter.mp hmem).2
    have hne : [' '].intercalate (q :: rest) ≠ [] := by
      cases rest <;> simp [List.intercalate, hq]
    rw [joinPieces_of_ne_nil hp hne]
    simp [List.intercalate]

theorem Text.label_pair (a b : List Char) : label [a, b] = joinPieces (trim a) (trim b) := by
  rw [label_cons, label_cons]
  exact congrArg _ (joinPieces_nil_right _)

theorem Text.label_triple (a b c : List Char) :
    label [a, b, c] = joinPieces (trim a) (joinPieces (trim b) (trim c)) := by
  rw [label_cons, label_pair]

/-- **Joining may be done before or after trimming.** -/
theorem trim_joinPieces (a b : List Char) :
    Text.trim (joinPieces (Text.trimEnd a) (Text.trimStart b)) =
      joinPieces (Text.trim a) (Text.trim b) := by
  by_cases ha : Text.trim a = []
  · rw [Text.trimEnd_eq_nil_iff.mpr ha, ha, joinPieces_nil_left, joinPieces_nil_left,
      Text.trim_trimStart]
  by_cases hb : Text.trim b = []
  · rw [Text.trimStart_eq_nil_iff.mpr hb, hb, joinPieces_nil_right, joinPieces_nil_right,
      Text.trim_trimEnd]
  -- Both pieces hold something: their outer ends lose their blanks, and the inner ends have lost
  -- them.
  obtain ⟨front, hfront, hend⟩ := Text.exists_trimEnd_eq ha
  obtain ⟨back, hback, hstart⟩ := Text.exists_trimStart_eq b
  have hmiddle : Text.Trimmed (Text.trim a ++ ' ' :: Text.trim b) := by
    refine Text.trim_eq_self_iff.mpr ⟨?_, ?_⟩
    · rw [List.head?_append_of_ne_nil _ ha]
      exact Text.head?_trim_not_blank
    · rw [List.getLast?_append_of_ne_nil _ (List.cons_ne_nil _ _),
        List.getLast?_cons_of_ne_nil hb]
      exact Text.getLast?_trim_not_blank
  calc Text.trim (joinPieces (Text.trimEnd a) (Text.trimStart b))
      = Text.trim (front ++ (Text.trim a ++ ' ' :: Text.trim b ++ back)) := by
        rw [hend, hstart, joinPieces_of_ne_nil (by simp [ha]) (by simp [hb])]
        simp only [List.append_assoc, List.cons_append]
    _ = Text.trim (Text.trim a ++ ' ' :: Text.trim b) := by
        rw [Text.trim_blanks_append hfront, Text.trim_append_of_blank hback]
    _ = Text.trim a ++ ' ' :: Text.trim b := hmiddle
    _ = joinPieces (Text.trim a) (Text.trim b) := (joinPieces_of_ne_nil ha hb).symm

/-! ## What is left by the first cut -/

/-- Joined in front of a bracket, two pieces stay in front of it. -/
theorem exists_joinPieces_front {a b : List Char} (ha : '[' ∉ a) (hb : '[' ∉ b) (rest : List Char) :
    ∃ front, '[' ∉ front ∧ Text.trim front = joinPieces (Text.trim a) (Text.trim b) ∧
      joinPieces (Text.trimEnd a) (Text.trimStart (b ++ '[' :: rest)) = front ++ '[' :: rest := by
  have ha' : '[' ∉ Text.trimEnd a := fun h => ha ((Text.trimEnd_isPrefix a).subset h)
  have hb' : '[' ∉ Text.trimStart b := fun h => hb ((List.dropWhile_suffix _).subset h)
  rw [Text.trimStart_append_cons (by decide)]
  by_cases htrim : Text.trim a = []
  · refine ⟨Text.trimStart b, hb', ?_, ?_⟩
    · rw [Text.trim_trimStart, htrim, joinPieces_nil_left]
    · rw [Text.trimEnd_eq_nil_iff.mpr htrim, joinPieces_nil_left]
  have hne : Text.trimEnd a ≠ [] := mt Text.trimEnd_eq_nil_iff.mp htrim
  refine ⟨Text.trimEnd a ++ ' ' :: Text.trimStart b, by simp [ha', hb'], ?_, ?_⟩
  · by_cases hblank : Text.trimStart b = []
    · rw [hblank, Text.trim_append_space, Text.trim_trimEnd, Text.trimStart_eq_nil_iff.mp hblank,
        joinPieces_nil_right]
    · rw [← joinPieces_of_ne_nil hne hblank, trim_joinPieces]
  · rw [joinPieces_of_ne_nil hne (by simp), List.append_assoc, List.cons_append]

/-- Joined behind a bracket, two pieces stay behind it. -/
theorem exists_joinPieces_back (front b c : List Char) :
    ∃ back, Text.trim back = joinPieces (Text.trim b) (Text.trim c) ∧
      joinPieces (Text.trimEnd (front ++ ']' :: b)) (Text.trimStart c) = front ++ ']' :: back := by
  rw [Text.trimEnd_append_cons (by decide)]
  by_cases htrim : Text.trim c = []
  · refine ⟨Text.trimEnd b, ?_, ?_⟩
    · rw [Text.trim_trimEnd, htrim, joinPieces_nil_right]
    · rw [Text.trimStart_eq_nil_iff.mpr htrim, joinPieces_nil_right]
  have hne : Text.trimStart c ≠ [] := mt Text.trimStart_eq_nil_iff.mp htrim
  refine ⟨Text.trimEnd b ++ ' ' :: Text.trimStart c, ?_, ?_⟩
  · by_cases hblank : Text.trimEnd b = []
    · rw [hblank, List.nil_append, Text.trim_space_cons, Text.trim_trimStart,
        Text.trimEnd_eq_nil_iff.mp hblank, joinPieces_nil_left]
    · rw [← joinPieces_of_ne_nil hblank hne, trim_joinPieces]
  · rw [joinPieces_of_ne_nil (by simp) hne, List.append_assoc, List.cons_append]

/-! ## Numerals between blanks -/

/-- Of a text that is read as a number no character is a bracket. -/
theorem not_mem_of_readNumber? {t : List Char} {x : Float}
    (h : readNumber? (String.ofList t) = some x) {c : Char} (hblank : Text.isBlank c = false)
    (hc : Decimal.isNumeralChar c = false) : c ∉ t := by
  intro hmem
  rw [readNumber?, String.toList_ofList] at h
  split at h
  · cases h
  · next d hd =>
    have hnumeral := Decimal.isNumeralChar_of_ofText? hd c (Text.mem_trim_of_mem hmem hblank)
    rw [hc] at hnumeral
    cases hnumeral

theorem readNumber?_trim (t : List Char) :
    readNumber? (String.ofList (Text.trim t)) = readNumber? (String.ofList t) := by
  rw [readNumber?, readNumber?, String.toList_ofList, String.toList_ofList, Text.trim_trim]

namespace EntryText

/-! ## Entries with tags -/

variable {cs afterIf afterTime : List Char} {inner inner' condition : Option (List Char)}
  {seconds : Option Float}

theorem ofText_of_cuts (hif : Tag.condition.cut cs = .ok (afterIf, inner))
    (hcondition : readCondition inner = .ok condition)
    (htime : Tag.time.cut afterIf = .ok (afterTime, inner'))
    (hseconds : readSeconds inner' = .ok seconds) :
    ofText cs = .ok ⟨Text.trim afterTime, condition, seconds⟩ := by
  simp only [ofText, hif, hcondition, htime, hseconds]

theorem readCondition_written {c : List Char} (hc : Text.trim c ≠ []) :
    readCondition (some (' ' :: c)) = .ok (some (Text.trim c)) := by
  simp only [readCondition, Text.trim_space_cons, if_neg hc]

theorem readSeconds_written {t : List Char} {x : Float}
    (ht : readNumber? (String.ofList t) = some x) (hx : 0 ≤ x) :
    readSeconds (some (' ' :: t)) = .ok (some x) := by
  simp only [readSeconds, Text.trim_space_cons, readNumber?_trim, ht, if_pos hx]

variable {p₀ p₁ p₂ c t ifWord timeWord : List Char} {x : Float}

/-- The `if` tag in front: the `time` tag is found behind the joined pieces. -/
theorem ofText_condition_time (h₀ : '[' ∉ p₀) (h₁ : '[' ∉ p₁)
    (hif : Text.sameIgnoringCase ifWord Tag.condition.keyword = true)
    (htime : Text.sameIgnoringCase timeWord Tag.time.keyword = true) (hclose : ']' ∉ c)
    (hc : Text.trim c ≠ []) (ht : readNumber? (String.ofList t) = some x) (hx : 0 ≤ x) :
    ofText (p₀ ++ Tag.written ifWord c ++ p₁ ++ Tag.written timeWord t ++ p₂) =
      .ok ⟨Text.label [p₀, p₁, p₂], some (Text.trim c), some x⟩ := by
  obtain ⟨front, hopen, htrim, hjoin⟩ : ∃ front, '[' ∉ front ∧
      Text.trim front = joinPieces (Text.trim p₀) (Text.trim p₁) ∧
      joinPieces (Text.trimEnd p₀) (Text.trimStart (p₁ ++ (Tag.written timeWord t ++ p₂))) =
        front ++ (Tag.written timeWord t ++ p₂) :=
    exists_joinPieces_front h₀ h₁ (timeWord ++ ' ' :: (t ++ [']']) ++ p₂)
  have hcutIf := Tag.cut_written hif h₀ hclose (p₁ ++ (Tag.written timeWord t ++ p₂))
  rw [hjoin] at hcutIf
  have hcutTime :=
    Tag.cut_written htime hopen (not_mem_of_readNumber? ht (by decide) (by decide)) p₂
  simp only [List.append_assoc]
  rw [ofText_of_cuts hcutIf (readCondition_written hc) hcutTime (readSeconds_written ht hx),
    trim_joinPieces, htrim, joinPieces_assoc, Text.label_triple]

/-- The `time` tag in front: it is passed over, and found in front of the joined pieces. -/
theorem ofText_time_condition (h₀ : '[' ∉ p₀) (h₁ : '[' ∉ p₁)
    (hif : Text.sameIgnoringCase ifWord Tag.condition.keyword = true)
    (htime : Text.sameIgnoringCase timeWord Tag.time.keyword = true) (hclose : ']' ∉ c)
    (hc : Text.trim c ≠ []) (ht : readNumber? (String.ofList t) = some x) (hx : 0 ≤ x) :
    ofText (p₀ ++ Tag.written timeWord t ++ p₁ ++ Tag.written ifWord c ++ p₂) =
      .ok ⟨Text.label [p₀, p₁, p₂], some (Text.trim c), some x⟩ := by
  have hopen : '[' ∉ t := not_mem_of_readNumber? ht (by decide) (by decide)
  have hfind : Tag.condition.find?
      (p₀ ++ (Tag.written timeWord t ++ (p₁ ++ (Tag.written ifWord c ++ p₂)))) =
      some (p₀ ++ (Tag.written timeWord t ++ p₁), ' ' :: c ++ ']' :: p₂) := by
    rw [Tag.find?_append _ h₀, Tag.find?_condition_written_time htime hopen, Tag.find?_append _ h₁,
      Tag.find?_written hif]
    simp
  have hcutIf := Tag.cut_of_closed hfind (by simpa using hclose)
  obtain ⟨back, htrim, hjoin⟩ := exists_joinPieces_back (p₀ ++ '[' :: (timeWord ++ ' ' :: t)) p₁ p₂
  have hbracket : p₀ ++ (Tag.written timeWord t ++ p₁) =
      p₀ ++ '[' :: (timeWord ++ ' ' :: t) ++ ']' :: p₁ := by simp [Tag.written]
  have hcutTime := Tag.cut_written htime h₀ (not_mem_of_readNumber? ht (by decide) (by decide)) back
  have hleft : p₀ ++ (Tag.written timeWord t ++ back) =
      p₀ ++ '[' :: (timeWord ++ ' ' :: t) ++ ']' :: back := by simp [Tag.written]
  rw [hbracket, hjoin, ← hleft] at hcutIf
  simp only [List.append_assoc]
  rw [ofText_of_cuts hcutIf (readCondition_written hc) hcutTime (readSeconds_written ht hx),
    trim_joinPieces, htrim, Text.label_triple]

/-- The `if` tag alone. -/
theorem ofText_condition (h₀ : '[' ∉ p₀) (h₁ : '[' ∉ p₁)
    (hif : Text.sameIgnoringCase ifWord Tag.condition.keyword = true) (hclose : ']' ∉ c)
    (hc : Text.trim c ≠ []) :
    ofText (p₀ ++ Tag.written ifWord c ++ p₁) =
      .ok ⟨Text.label [p₀, p₁], some (Text.trim c), none⟩ := by
  have hcutIf := Tag.cut_written hif h₀ hclose p₁
  have hopen : '[' ∉ joinPieces (Text.trimEnd p₀) (Text.trimStart p₁) := by
    have h₀' : '[' ∉ Text.trimEnd p₀ := fun h => h₀ ((Text.trimEnd_isPrefix p₀).subset h)
    have h₁' : '[' ∉ Text.trimStart p₁ := fun h => h₁ ((List.dropWhile_suffix _).subset h)
    rw [joinPieces]
    split <;> simp [h₀', h₁']
  have hcutTime := Tag.time.cut_eq_self (Tag.time.find?_eq_none hopen)
  rw [List.append_assoc, ofText_of_cuts hcutIf (readCondition_written hc) hcutTime rfl,
    trim_joinPieces, Text.label_pair]

/-- The `time` tag alone. -/
theorem ofText_time (h₀ : '[' ∉ p₀) (h₁ : '[' ∉ p₁)
    (htime : Text.sameIgnoringCase timeWord Tag.time.keyword = true)
    (ht : readNumber? (String.ofList t) = some x) (hx : 0 ≤ x) :
    ofText (p₀ ++ Tag.written timeWord t ++ p₁) = .ok ⟨Text.label [p₀, p₁], none, some x⟩ := by
  have hopen : '[' ∉ t := not_mem_of_readNumber? ht (by decide) (by decide)
  have hfind : Tag.condition.find? (p₀ ++ (Tag.written timeWord t ++ p₁)) = none := by
    rw [Tag.find?_append _ h₀, Tag.find?_condition_written_time htime hopen, Tag.find?_eq_none _ h₁]
    rfl
  have hcutTime := Tag.cut_written htime h₀ (not_mem_of_readNumber? ht (by decide) (by decide)) p₁
  rw [List.append_assoc, ofText_of_cuts (Tag.condition.cut_eq_self hfind) rfl hcutTime
    (readSeconds_written ht hx), trim_joinPieces, Text.label_pair]

/-- **Tags may stand anywhere in an entry and in either order**, in any case of their keywords. The
label is made of the pieces around them, the condition is the text of its tag without the blanks
around it, and the time is the number in its tag. With one tag the other is absent. -/
theorem ofText_tags (h₀ : '[' ∉ p₀) (h₁ : '[' ∉ p₁)
    (hif : Text.sameIgnoringCase ifWord Tag.condition.keyword = true)
    (htime : Text.sameIgnoringCase timeWord Tag.time.keyword = true) (hclose : ']' ∉ c)
    (hc : Text.trim c ≠ []) (ht : readNumber? (String.ofList t) = some x) (hx : 0 ≤ x) :
    ofText (p₀ ++ Tag.written ifWord c ++ p₁ ++ Tag.written timeWord t ++ p₂) =
        .ok ⟨Text.label [p₀, p₁, p₂], some (Text.trim c), some x⟩ ∧
      ofText (p₀ ++ Tag.written timeWord t ++ p₁ ++ Tag.written ifWord c ++ p₂) =
        .ok ⟨Text.label [p₀, p₁, p₂], some (Text.trim c), some x⟩ ∧
      ofText (p₀ ++ Tag.written ifWord c ++ p₁) =
        .ok ⟨Text.label [p₀, p₁], some (Text.trim c), none⟩ ∧
      ofText (p₀ ++ Tag.written timeWord t ++ p₁) = .ok ⟨Text.label [p₀, p₁], none, some x⟩ :=
  ⟨ofText_condition_time h₀ h₁ hif htime hclose hc ht hx,
    ofText_time_condition h₀ h₁ hif htime hclose hc ht hx, ofText_condition h₀ h₁ hif hclose hc,
    ofText_time h₀ h₁ htime ht hx⟩

/-- An entry of two pieces, its keywords in capitals and its tags in either order. -/
theorem ofText_tags_runEntry :
    ofText (" Run ".toList ++ Tag.written "IF".toList " brave".toList ++ " fast ".toList ++
        Tag.written "Time".toList "2.5 ".toList ++ "  ".toList) =
        .ok ⟨"Run fast".toList, some "brave".toList, some 2.5⟩ ∧
      ofText (" Run ".toList ++ Tag.written "Time".toList "2.5 ".toList ++ " fast ".toList ++
        Tag.written "IF".toList " brave".toList ++ "  ".toList) =
        .ok ⟨"Run fast".toList, some "brave".toList, some 2.5⟩ ∧
      ofText (" Run ".toList ++ Tag.written "IF".toList " brave".toList ++ " fast ".toList) =
        .ok ⟨"Run fast".toList, some "brave".toList, none⟩ ∧
      ofText (" Run ".toList ++ Tag.written "Time".toList "2.5 ".toList ++ " fast ".toList) =
        .ok ⟨"Run fast".toList, none, some 2.5⟩ := by
  have htriple : Text.label [" Run ".toList, " fast ".toList, "  ".toList] = "Run fast".toList := by
    decide +kernel
  have hpair : Text.label [" Run ".toList, " fast ".toList] = "Run fast".toList := by decide +kernel
  have hcondition : Text.trim " brave".toList = "brave".toList := by decide +kernel
  have hseconds : readNumber? (String.ofList "2.5 ".toList) = some 2.5 := by decide +kernel
  have htags := @ofText_tags " Run ".toList " fast ".toList "  ".toList " brave".toList
    "2.5 ".toList "IF".toList "Time".toList 2.5 (by decide) (by decide) (by decide) (by decide)
    (by decide) (by decide) hseconds (by decide +kernel)
  rwa [htriple, hpair, hcondition] at htags

end EntryText

end Dialogue
