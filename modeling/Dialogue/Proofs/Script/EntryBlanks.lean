import Dialogue.Proofs.Script.ChoiceText
import Mathlib.Data.List.Infix
import Mathlib.Data.List.TakeWhile

/-!
# Blanks behind an entry

Blanks at the end of the text of an entry say nothing (`EntryText.ofText_append_of_blank`), and its
faults are shown at the same place with them (`TagFault.offset_append_of_blank`). There is one
exception. A tag starts with a bracket and its keyword, and the keyword has to end behind its
letters, which it does not do at the end of the text. So a text that ends right behind the opener of
a tag which it does not have (`EntryText.OpensTag`) holds the opener as letters of the label, and a
blank makes a tag of them, one that is not closed.
-/

namespace Dialogue

/-- Blanks stay behind a text without its leading blanks, unless the text is blank. -/
theorem Text.trimStart_append_of_blank {bs : List Char} (hbs : ∀ c ∈ bs, isBlank c = true)
    (cs : List Char) :
    trimStart (cs ++ bs) = if trimStart cs = [] then [] else trimStart cs ++ bs := by
  rw [trimStart, trimStart, List.dropWhile_append, List.dropWhile_eq_nil_iff.mpr hbs]
  simp only [List.isEmpty_iff]

namespace Tag

variable {t : Tag} {cs bs word : List Char}

/-! ## Openers -/

/-- The text is the opener of the tag: a bracket, and the keyword in any case of its letters. -/
def IsOpener (t : Tag) (cs : List Char) : Prop :=
  cs.head? = some '[' ∧ Text.sameIgnoringCase cs.tail t.keyword = true

/-- The text ends right behind an opener of the tag. -/
def EndsInOpener (t : Tag) (cs : List Char) : Prop := ∃ opener, opener <:+ cs ∧ t.IsOpener opener

instance (t : Tag) (cs : List Char) : Decidable (t.IsOpener cs) :=
  inferInstanceAs (Decidable (_ ∧ _))

instance (t : Tag) (cs : List Char) : Decidable (t.EndsInOpener cs) :=
  decidable_of_iff (∃ opener ∈ cs.tails, t.IsOpener opener) (by
    simp only [List.mem_tails, EndsInOpener])

theorem EndsInOpener.mono {ds : List Char} (h : t.EndsInOpener cs) (hsuffix : cs <:+ ds) :
    t.EndsInOpener ds := by
  obtain ⟨opener, hopener, his⟩ := h
  exact ⟨opener, hopener.trans hsuffix, his⟩

/-- An opener on its own is not a tag. -/
theorem find?_of_isOpener (h : t.IsOpener cs) : t.find? cs = none := by
  obtain ⟨hhead, hword⟩ := h
  cases cs with
  | nil => cases hhead
  | cons c word =>
    cases hhead
    rw [List.tail_cons] at hword
    have hlength := Text.length_eq_of_sameIgnoringCase hword
    have hopen : '[' ∉ word := fun hmem => (not_blank_of_mem_keyword hword hmem).2.1 rfl
    have hkeyword : t.behindKeyword? ('[' :: word) = none := by
      rw [behindKeyword?, List.drop_eq_nil_of_le hlength.le]
      split <;> rfl
    rw [find?, hkeyword, find?_eq_none t hopen]
    rfl

/-- A blank cannot stand in for a letter of a keyword. -/
theorem sameIgnoringCase_take_append (hbs : ∀ c ∈ bs, Text.isBlank c = true)
    (hlength : word.length < t.keyword.length) :
    Text.sameIgnoringCase ((word ++ bs).take t.keyword.length) t.keyword = false := by
  rw [Bool.eq_false_iff]
  intro hsame
  have htake := Text.length_eq_of_sameIgnoringCase hsame
  rw [List.length_take, List.length_append] at htake
  obtain ⟨b, rest, rfl⟩ : ∃ b rest, bs = b :: rest :=
    List.exists_cons_of_length_pos (by omega)
  have hmem : b ∈ (word ++ b :: rest).take t.keyword.length := by
    rw [List.take_append, List.take_of_length_le hlength.le]
    obtain ⟨n, hn⟩ : ∃ n, t.keyword.length - word.length = n + 1 :=
      Nat.exists_eq_succ_of_ne_zero (by omega)
    rw [hn, List.take_succ_cons]
    exact List.mem_append_right _ List.mem_cons_self
  have hblank := (not_blank_of_mem_keyword hsame hmem).1
  rw [hbs b List.mem_cons_self] at hblank
  cases hblank

/-- Blanks make a tag of nothing but an opener. -/
theorem behindKeyword?_append (hbs : ∀ c ∈ bs, Text.isBlank c = true) {c : Char}
    (h : ¬ t.IsOpener (c :: word)) :
    t.behindKeyword? (c :: word ++ bs) = (t.behindKeyword? (c :: word)).map (· ++ bs) := by
  rw [List.cons_append]
  by_cases hc : c = '['
  case neg => rw [behindKeyword?_of_ne t hc, behindKeyword?_of_ne t hc, Option.map_none]
  subst hc
  rcases Nat.lt_trichotomy word.length t.keyword.length with hshort | hequal | hlong
  · -- The keyword is longer than the text.
    have hsame := sameIgnoringCase_take_append hbs hshort
    have hself : Text.sameIgnoringCase ((word ++ []).take t.keyword.length) t.keyword = false :=
      sameIgnoringCase_take_append (by simp) hshort
    rw [List.append_nil] at hself
    simp [behindKeyword?, hsame, hself]
  · -- The text would be an opener.
    have hsame : Text.sameIgnoringCase word t.keyword = false :=
      Bool.eq_false_iff.mpr fun hsame => h ⟨rfl, hsame⟩
    simp [behindKeyword?, ← hequal, hsame]
  · -- What decides stands in front of the blanks.
    obtain ⟨d, rest, hdrop⟩ : ∃ d rest, word.drop t.keyword.length = d :: rest :=
      List.exists_cons_of_length_pos (by rw [List.length_drop]; omega)
    simp only [behindKeyword?, List.take_append_of_le_length hlong.le,
      List.drop_append_of_le_length hlong.le, hdrop, List.cons_append]
    split
    · split <;> rfl
    · rfl

/-- Blanks at the end of a text go behind its first tag, and make no tag unless it ends in an
opener. -/
theorem find?_append_of_blank (hbs : ∀ c ∈ bs, Text.isBlank c = true)
    (h : t.EndsInOpener cs → t.find? cs ≠ none) :
    t.find? (cs ++ bs) = (t.find? cs).map fun (before, rest) => (before, rest ++ bs) := by
  induction cs with
  | nil =>
    apply find?_eq_none
    intro hopen
    exact absurd (hbs _ hopen) (by decide)
  | cons c cs ih =>
    have hopener : ¬ t.IsOpener (c :: cs) := fun hopener =>
      h ⟨c :: cs, List.suffix_rfl, hopener⟩ (find?_of_isOpener hopener)
    have hbehind := behindKeyword?_append hbs hopener
    rw [List.cons_append] at hbehind ⊢
    rw [find?, find?, hbehind]
    cases hkeyword : t.behindKeyword? (c :: cs) with
    | some rest => rfl
    | none =>
      have hrest : t.EndsInOpener cs → t.find? cs ≠ none := by
        intro hends hnone
        apply h (hends.mono (List.suffix_cons c cs))
        rw [find?, hkeyword, hnone]
        rfl
      rw [Option.map_none, ih hrest]
      cases t.find? cs <;> rfl

/-- What follows the keyword of a tag is the end of the text. -/
theorem suffix_of_find? {before rest : List Char} (h : t.find? cs = some (before, rest)) :
    rest <:+ cs := by
  obtain ⟨word, c, tail, rfl, -⟩ := eq_of_find? h
  exact ⟨before ++ '[' :: word, by simp⟩

/-! ## Cuts -/

theorem cut_of_unclosed {before rest : List Char} (h : t.find? cs = some (before, rest))
    (hrest : ']' ∉ rest) : t.cut cs = .error (.unclosed t) := by
  have hdrop : rest.dropWhile (· != ']') = [] :=
    List.dropWhile_eq_nil_iff.mpr (Text.bne_of_mem_of_not_mem hrest)
  simp only [cut, h, hdrop]

/-- A tag that is looked for is not there, or not closed, or cut out. -/
theorem cut_cases (t : Tag) (cs : List Char) :
    (t.find? cs = none ∧ t.cut cs = .ok (cs, none)) ∨
      (∃ front rest, t.find? cs = some (front, rest) ∧ ']' ∉ rest ∧
        t.cut cs = .error (.unclosed t)) ∨
      ∃ front inner back, t.find? cs = some (front, inner ++ ']' :: back) ∧ ']' ∉ inner ∧
        t.cut cs = .ok (joinPieces (Text.trimEnd front) (Text.trimStart back), some inner) := by
  cases hcs : t.find? cs with
  | none => exact .inl ⟨rfl, cut_eq_self t hcs⟩
  | some found =>
    obtain ⟨front, rest⟩ := found
    by_cases hclose : ']' ∈ rest
    case neg => exact .inr (.inl ⟨front, rest, rfl, hclose, cut_of_unclosed hcs hclose⟩)
    obtain ⟨inner, back, rfl, hinner⟩ := List.eq_append_cons_of_mem hclose
    exact .inr (.inr ⟨front, inner, back, rfl, hinner, cut_of_closed hcs hinner⟩)

theorem joinPieces_append {a b : List Char} (hb : b ≠ []) (bs : List Char) :
    joinPieces a (b ++ bs) = joinPieces a b ++ bs := by
  by_cases ha : a = []
  · simp [joinPieces, ha]
  · simp [joinPieces, ha, hb]

/-- An opener holds no blank, so it does not go beyond the place where two pieces are joined. -/
theorem EndsInOpener.of_joinPieces {a b : List Char} (h : t.EndsInOpener (joinPieces a b))
    (hb : b ≠ []) : t.EndsInOpener b := by
  obtain ⟨opener, hsuffix, hhead, hword⟩ := h
  by_cases ha : a = []
  · rw [ha, joinPieces_nil_left] at hsuffix
    exact ⟨opener, hsuffix, hhead, hword⟩
  · rw [joinPieces_of_ne_nil ha hb] at hsuffix
    rcases List.suffix_or_suffix_of_suffix hsuffix (List.suffix_append a (' ' :: b)) with hin | hout
    · rcases List.suffix_cons_iff.mp hin with rfl | hin
      · cases hhead
      · exact ⟨opener, hin, hhead, hword⟩
    · obtain ⟨word, rfl⟩ := List.head?_eq_some_iff.mp hhead
      have hspace : ' ' ∈ '[' :: word := hout.subset List.mem_cons_self
      rcases List.mem_cons.mp hspace with hspace | hspace
      · cases hspace
      · have hblank := (not_blank_of_mem_keyword hword hspace).1
        cases hblank

/-- Blanks stay behind the text from which a tag is cut, unless nothing else is left behind the tag.
What is left ends in an opener only if the text does. -/
theorem cut_append (hbs : ∀ c ∈ bs, Text.isBlank c = true)
    (h : t.EndsInOpener cs → t.find? cs ≠ none) :
    (∃ e, t.cut cs = .error e ∧ t.cut (cs ++ bs) = .error e) ∨
      ∃ left inner, t.cut cs = .ok (left, inner) ∧
        (t.cut (cs ++ bs) = .ok (left, inner) ∨
          t.cut (cs ++ bs) = .ok (left ++ bs, inner) ∧
            ∀ t' : Tag, t'.EndsInOpener left → t'.EndsInOpener cs) := by
  have hfind := find?_append_of_blank hbs h
  rcases t.cut_cases cs with ⟨hcs, hcut⟩ | ⟨front, rest, hcs, hclose, hcut⟩ |
    ⟨front, inner, after, hcs, hinner, hcut⟩
  · rw [hcs] at hfind
    exact .inr ⟨cs, none, hcut, .inr ⟨cut_eq_self t hfind, fun _ hends => hends⟩⟩
  · rw [hcs, Option.map_some] at hfind
    have hclose' : ']' ∉ rest ++ bs := by
      rw [List.mem_append, not_or]
      exact ⟨hclose, fun hmem => absurd (hbs _ hmem) (by decide)⟩
    exact .inl ⟨_, hcut, cut_of_unclosed hfind hclose'⟩
  · have hfind' : t.find? (cs ++ bs) = some (front, inner ++ ']' :: (after ++ bs)) := by
      rw [hfind, hcs, ← List.cons_append, ← List.append_assoc]
      rfl
    refine .inr ⟨_, _, hcut, ?_⟩
    rw [cut_of_closed hfind' hinner, Text.trimStart_append_of_blank hbs]
    split
    · next hnil =>
      rw [hnil]
      exact .inl rfl
    · next hne =>
      rw [joinPieces_append hne]
      refine .inr ⟨rfl, fun t' hends => ?_⟩
      have hafter : after <:+ cs :=
        (List.suffix_append_of_suffix (List.suffix_cons ']' after)).trans (suffix_of_find? hcs)
      exact (hends.of_joinPieces hne).mono ((List.dropWhile_suffix _).trans hafter)

end Tag

namespace EntryText

/-! ## Entries -/

/-- The text ends right behind the opener of a tag that it does not have, so that a blank behind it
makes a tag. -/
inductive OpensTag (cs : List Char) : Prop
  /-- It has no `if` tag. -/
  | condition : Tag.condition.EndsInOpener cs → Tag.condition.find? cs = none → OpensTag cs
  /-- It is read without a time. -/
  | time {e : EntryText} : Tag.time.EndsInOpener cs → ofText cs = .ok e → e.seconds = none →
      OpensTag cs
  /-- It has no `time` tag as it stands; the one that is wrong only shows when the `if` tag is cut
  out. -/
  | place {e : TagFault} : Tag.time.EndsInOpener cs → Tag.time.find? cs = none →
      ofText cs = .error e → e.tag = .time → OpensTag cs

variable {cs bs : List Char}

/-- **Blanks behind an entry say nothing**, unless the entry opens a tag at its end. -/
theorem ofText_append_of_blank (hbs : ∀ c ∈ bs, Text.isBlank c = true) (h : ¬ OpensTag cs) :
    ofText (cs ++ bs) = ofText cs := by
  have hcondition : Tag.condition.EndsInOpener cs → Tag.condition.find? cs ≠ none :=
    fun hends hnone => h (.condition hends hnone)
  rcases Tag.cut_append hbs hcondition with
    ⟨e, hcut, hcut'⟩ | ⟨left, inner, hcut, hcut' | ⟨hcut', hends⟩⟩
  · rw [ofText, ofText, hcut, hcut']
  · rw [ofText, ofText, hcut, hcut']
  · cases hread : readCondition inner with
    | error e => simp only [ofText, hcut, hcut', hread]
    | ok condition =>
      have htime : Tag.time.EndsInOpener left → Tag.time.find? left ≠ none := by
        intro hleft hnone
        have hself : ofText cs = .ok ⟨Text.trim left, condition, none⟩ := by
          simp only [ofText, hcut, hread, Tag.cut_eq_self _ hnone, readSeconds]
        exact h (.time (hends _ hleft) hself rfl)
      rcases Tag.cut_append hbs htime with ⟨e, hcutTime, hcutTime'⟩ |
        ⟨label, seconds, hcutTime, hcutTime' | ⟨hcutTime', -⟩⟩
      · simp only [ofText, hcut, hcut', hread, hcutTime, hcutTime']
      · simp only [ofText, hcut, hcut', hread, hcutTime, hcutTime']
      · simp only [ofText, hcut, hcut', hread, hcutTime, hcutTime', Text.trim_append_of_blank hbs]

end EntryText

/-- **With blanks behind an entry its faults are shown where they are without**, unless the entry
opens a tag at its end. -/
theorem TagFault.offset_append_of_blank {cs bs : List Char} {e : TagFault}
    (hbs : ∀ c ∈ bs, Text.isBlank c = true) (h : ¬ EntryText.OpensTag cs)
    (he : EntryText.ofText cs = .error e) : e.offset (cs ++ bs) = e.offset cs := by
  have hfind : e.tag.EndsInOpener cs → e.tag.find? cs ≠ none := by
    intro hends hnone
    cases htag : e.tag with
    | condition =>
      rw [htag] at hends hnone
      exact h (.condition hends hnone)
    | time =>
      rw [htag] at hends hnone
      exact h (.place hends hnone he htag)
  rw [offset, offset, Tag.find?_append_of_blank hbs hfind]
  cases e.tag.find? cs <;> rfl

end Dialogue
