import Dialogue.Proofs.Condition.Spelling
import Dialogue.Proofs.Condition.Stream

/-!
# A text is cut into its tokens

`CutInto cs 0 tokens` says that the tokens are a partition of the text `cs`. Each of them occupies a
range of characters, which starts at the position of the token and is a spelling of it; the ranges
come one behind the other and are not empty; what stands between them, before the first and behind
the last, are blanks; and no range could be longer, as the character behind it does not join the
token. The last token is the end of the text, at the position behind its last character.

The relation speaks of ranges of one text and knows of no lexer. The lexer finds exactly the tokens
that a text is cut into, and a text that cannot be cut is a fault (`toList_ofText_eq_ok_iff`). Both
directions are one statement about a lexer somewhere in the text, by induction on the tokens.
-/

namespace Dialogue

/-- From the position `low` on, the text `cs` is cut into the tokens. -/
inductive CutInto (cs : List Char) : Nat → List PlacedToken → Prop
  | ended {low : Nat} : (∀ c ∈ cs.drop low, Text.isBlank c = true) →
      CutInto cs low [⟨.endOfText, cs.length⟩]
  | token {low start stop : Nat} {token : Token} {ts : List PlacedToken} :
      low ≤ start → start < stop → stop ≤ cs.length →
      (∀ c ∈ (cs.drop low).take (start - low), Text.isBlank c = true) →
      Spells ((cs.drop start).take (stop - start)) token →
      (∀ c ∈ cs[stop]?, token.joins c = false) →
      CutInto cs stop ts → CutInto cs low (⟨token, start⟩ :: ts)

/-! ## Spellings between blanks -/

namespace Text

/-- A table that holds no code of a blank holds no blank. -/
theorem inRanges_of_isBlank {table : List (Nat × Nat)} {c : Char} (h : isBlank c = true)
    (hcodes : ∀ r ∈ blankCodes, ∀ n ∈ List.range' r.1 (r.2 + 1 - r.1), inRanges n table = false) :
    inRanges c.toNat table = false := by
  obtain ⟨r, hr, hlow, hhigh⟩ := (inRanges_iff ordered_blankCodes c.toNat).mp h
  refine hcodes r hr c.toNat ?_
  rw [List.mem_range'_1]
  omega

/-- No word character is blank: the codes of the blanks are in no range of the two tables. -/
theorem isBlank_of_isWordChar {c : Char} (h : isWordChar c = true) : isBlank c = false := by
  rw [← Bool.not_eq_true]
  intro hblank
  have hletter : isLetter c = false := inRanges_of_isBlank hblank (by decide +kernel)
  have hnumber : isNumberChar c = false := inRanges_of_isBlank hblank (by decide +kernel)
  rw [isWordChar, hletter, hnumber, Bool.false_or, Bool.false_or, beq_iff_eq] at h
  subst h
  exact absurd hblank (by decide)

theorem isBlank_of_isLetter {c : Char} (h : isLetter c = true) : isBlank c = false :=
  isBlank_of_isWordChar (isWordChar_of_isLetter h)

end Text

namespace Spells

variable {cs : List Char} {token : Token}

/-- A spelling starts with a character that is not blank. -/
theorem exists_head (h : Spells cs token) : ∃ c tail, cs = c :: tail ∧ Text.isBlank c = false := by
  have hword : ∀ {cs}, Spelling.Word cs → ∃ c tail, cs = c :: tail ∧ Text.isBlank c = false := by
    rintro cs ⟨hc | rfl, -⟩
    · exact ⟨_, _, rfl, Text.isBlank_of_isLetter hc⟩
    · exact ⟨_, _, rfl, by decide⟩
  cases h with
  | openParen | closeParen | bang => exact ⟨_, _, rfl, by decide⟩
  | operator op => cases op <;> exact ⟨_, _, rfl, by decide⟩
  | string _ => exact ⟨_, _, rfl, by decide⟩
  | number hnumeral =>
    obtain ⟨c, tail, hdigit, rfl⟩ := hnumeral.exists_digit
    have hblank : (!Text.isBlank c) = true :=
      Spelling.of_isDigit (p := fun c => !Text.isBlank c) (by decide) hdigit
    exact ⟨c, tail, rfl, by simpa using hblank⟩
  | keyword h _ _ => exact hword h
  | name h _ => exact hword h

theorem ne_nil (h : Spells cs token) : cs ≠ [] := by
  obtain ⟨c, tail, rfl, -⟩ := h.exists_head
  exact List.cons_ne_nil _ _

/-- The end of the text has no spelling. -/
theorem ne_endOfText (h : Spells cs token) : token ≠ .endOfText := by
  cases h <;> exact Token.noConfusion

end Spells

/-- What a scan behind blanks finds is spelled there, and what the scan leaves stands behind it. -/
theorem Scan.exists_of_found {pos : Nat} {cs : List Char} {token : Token}
    (h : (scan pos (cs.dropWhile Text.isBlank)).found = .ok token) (hend : token ≠ .endOfText) :
    ∃ gap piece, cs = gap ++ (piece ++ (scan pos (cs.dropWhile Text.isBlank)).rest) ∧
      (∀ c ∈ gap, Text.isBlank c = true) ∧ Spells piece token ∧
      ∀ c ∈ (scan pos (cs.dropWhile Text.isBlank)).rest.head?, token.joins c = false := by
  have htext := List.takeWhile_append_dropWhile (p := Text.isBlank) (l := cs)
  cases hdrop : cs.dropWhile Text.isBlank with
  | nil =>
    rw [hdrop] at h
    cases h
    exact absurd rfl hend
  | cons c rest =>
    rw [hdrop] at h htext
    obtain ⟨hspells, hnext⟩ := Scan.sound_scan pos c rest token h
    refine ⟨cs.takeWhile Text.isBlank, _, ?_, List.all_eq_true.mp List.all_takeWhile, hspells,
      hnext⟩
    rw [Scan.taken_append_rest_scan, htext]

namespace Lexer

variable {l : Lexer} {gap piece rest : List Char} {token : Token}

/-- A lexer in front of blanks and a spelling that nothing joins finds the token and goes behind
it. -/
theorem advance_of_spells (hrest : l.rest = gap ++ (piece ++ rest))
    (hgap : ∀ c ∈ gap, Text.isBlank c = true) (h : Spells piece token)
    (hnext : ∀ c ∈ rest.head?, token.joins c = false) :
    l.advance =
      (.ok ⟨token, l.pos + gap.length⟩, ⟨rest, l.pos + gap.length + piece.length, none⟩) := by
  have hhead : ∀ c ∈ (piece ++ rest).head?, Text.isBlank c = false := by
    obtain ⟨c, tail, rfl, hc⟩ := h.exists_head
    rintro d ⟨⟩
    exact hc
  rw [advance, hrest, Spelling.takeWhile_append_of_head hgap hhead,
    Spelling.dropWhile_append_of_head hgap hhead, Scan.scan_of_spells h hnext]
  rfl

/-- What a lexer finds stands behind blanks and is spelled there. -/
theorem exists_of_advance {t : PlacedToken} (h : l.advance.1 = .ok t)
    (hend : t.token ≠ .endOfText) :
    ∃ gap piece rest, l.rest = gap ++ (piece ++ rest) ∧ (∀ c ∈ gap, Text.isBlank c = true) ∧
      Spells piece t.token ∧ ∀ c ∈ rest.head?, t.token.joins c = false := by
  obtain ⟨token, hfound, heq⟩ := Outcome.map_eq_ok_iff.mp h
  cases heq
  obtain ⟨gap, piece, htext, hgap, hspells, hnext⟩ := Scan.exists_of_found hfound hend
  exact ⟨gap, piece, _, htext, hgap, hspells, hnext⟩

/-- A lexer finds the end of the text exactly when only blanks are left. -/
theorem advance_eq_endOfText_iff {pos : Nat} :
    l.advance.1 = .ok ⟨.endOfText, pos⟩ ↔
      (∀ c ∈ l.rest, Text.isBlank c = true) ∧ pos = l.pos + l.rest.length := by
  have htext := List.takeWhile_append_dropWhile (p := Text.isBlank) (l := l.rest)
  rw [← List.dropWhile_eq_nil_iff, advance, Outcome.map_eq_ok_iff]
  cases hdrop : l.rest.dropWhile Text.isBlank with
  | nil =>
    rw [hdrop, List.append_nil] at htext
    simp [scan, htext, eq_comm]
  | cons c cs =>
    constructor
    · rintro ⟨token, hfound, heq⟩
      cases heq
      exact absurd hfound (TokenStream.found_scan_ne_endOfText _ c cs)
    · rintro ⟨⟨⟩, -⟩

end Lexer

/-! ## Ranges and pieces -/

namespace CutInto

variable {cs gap piece rest : List Char} {low start stop : Nat} {token : Token}

/-- What is left of a text behind each of the pieces that it goes on with. -/
theorem drop_of_pieces (h : cs.drop low = gap ++ (piece ++ rest)) :
    cs.drop (low + gap.length) = piece ++ rest ∧
      cs.drop (low + gap.length + piece.length) = rest := by
  have hstart : cs.drop (low + gap.length) = piece ++ rest := by
    rw [← List.drop_drop, h, List.drop_left]
  refine ⟨hstart, ?_⟩
  rw [← List.drop_drop, hstart, List.drop_left]

theorem stop_le_length (h : cs.drop low = gap ++ (piece ++ rest)) (hlow : low ≤ cs.length) :
    low + gap.length + piece.length ≤ cs.length := by
  have hlength := congrArg List.length h
  simp only [List.length_drop, List.length_append] at hlength
  omega

/-- The range between two positions is as long as it is wide. -/
theorem length_range (hstop : stop ≤ cs.length) (hstart : start ≤ stop) :
    ((cs.drop start).take (stop - start)).length = stop - start := by
  rw [List.length_take, List.length_drop]
  omega

/-- Two ranges one behind the other, and what is left behind them. -/
theorem drop_eq_pieces (cs : List Char) (hlow : low ≤ start) (hstart : start ≤ stop) :
    cs.drop low = (cs.drop low).take (start - low) ++
      ((cs.drop start).take (stop - start) ++ cs.drop stop) := by
  have hbehind : cs.drop stop = (cs.drop start).drop (stop - start) := by
    rw [List.drop_drop, Nat.add_sub_cancel' hstart]
  have hfrom : cs.drop start = (cs.drop low).drop (start - low) := by
    rw [List.drop_drop, Nat.add_sub_cancel' hlow]
  rw [hbehind, List.take_append_drop, hfrom, List.take_append_drop]

/-- A text that goes on with blanks and a spelling is cut there. -/
theorem of_pieces {ts : List PlacedToken} (h : cs.drop low = gap ++ (piece ++ rest))
    (hlow : low ≤ cs.length) (hgap : ∀ c ∈ gap, Text.isBlank c = true)
    (hspells : Spells piece token) (hnext : ∀ c ∈ rest.head?, token.joins c = false)
    (hts : CutInto cs (low + gap.length + piece.length) ts) :
    CutInto cs low (⟨token, low + gap.length⟩ :: ts) := by
  obtain ⟨hstart, hstop⟩ := drop_of_pieces h
  have hpiece := List.length_pos_iff.mpr hspells.ne_nil
  refine .token (Nat.le_add_right _ _) (by omega) (stop_le_length h hlow) ?_ ?_ ?_ hts
  · rw [h, Nat.add_sub_cancel_left, List.take_left]
    exact hgap
  · rw [hstart, Nat.add_sub_cancel_left, List.take_left]
    exact hspells
  · rw [← List.head?_drop, hstop]
    exact hnext

end CutInto

/-! ## The tokens of a lexer -/

namespace TokenStream

/-- A lexer finds the end of the text, or a token and then what the lexer behind it finds. -/
theorem toList_ofLexer_eq_ok_iff {l : Lexer} {tokens : List PlacedToken} :
    (ofLexer l).toList = .ok tokens ↔
      (∃ pos, l.advance.1 = .ok ⟨.endOfText, pos⟩ ∧ tokens = [⟨.endOfText, pos⟩]) ∨
      ∃ t ts, l.advance.1 = .ok t ∧ t.token ≠ .endOfText ∧
        (ofLexer l.advance.2).toList = .ok ts ∧ tokens = t :: ts := by
  rw [ofLexer]
  split
  · next h => simp [h, toList]
  · next t l' h =>
    rw [h]
    obtain ⟨token, pos⟩ := t
    by_cases hend : token = .endOfText
    · simp [hend, toList, eq_comm]
    · rw [dif_neg hend, toList, Outcome.map_eq_ok_iff]
      simp [hend, eq_comm]

/-- A lexer inside of a text finds the tokens that the text is cut into from there on. -/
theorem toList_ofLexer_iff_cutInto {cs : List Char} {l : Lexer} {tokens : List PlacedToken}
    (hrest : l.rest = cs.drop l.pos) (hpos : l.pos ≤ cs.length) :
    (ofLexer l).toList = .ok tokens ↔ CutInto cs l.pos tokens := by
  induction tokens generalizing l with
  | nil =>
    rw [toList_ofLexer_eq_ok_iff]
    constructor
    · rintro (⟨pos, -, h⟩ | ⟨t, ts, -, -, -, h⟩)
      · cases h
      · cases h
    · rintro ⟨⟩
  | cons t ts ih =>
    rw [toList_ofLexer_eq_ok_iff]
    constructor
    · rintro (⟨pos, hadvance, heq⟩ | ⟨t', ts', hadvance, hend, hts, heq⟩)
      · cases heq
        obtain ⟨hblank, rfl⟩ := Lexer.advance_eq_endOfText_iff.mp hadvance
        rw [hrest] at hblank ⊢
        rw [List.length_drop, Nat.add_sub_cancel' hpos]
        exact .ended hblank
      · cases heq
        obtain ⟨token, start⟩ := t
        obtain ⟨gap, piece, rest, hl, hgap, hspells, hnext⟩ := Lexer.exists_of_advance hadvance hend
        rw [Lexer.advance_of_spells hl hgap hspells hnext] at hadvance hts
        cases hadvance
        rw [hrest] at hl
        have hlength := CutInto.stop_le_length hl hpos
        have hbehind := (CutInto.drop_of_pieces hl).2.symm
        exact .of_pieces hl hpos hgap hspells hnext ((ih hbehind hlength).mp hts)
    · intro hcut
      cases hcut with
      | ended hblank =>
        refine .inl ⟨cs.length, Lexer.advance_eq_endOfText_iff.mpr ⟨hrest ▸ hblank, ?_⟩, rfl⟩
        rw [hrest, List.length_drop, Nat.add_sub_cancel' hpos]
      | @token _ start stop token _ hlow hstart hstop hgap hspells hnext hts =>
        have hl := hrest.trans (CutInto.drop_eq_pieces cs hlow hstart.le)
        have hadvance := Lexer.advance_of_spells hl hgap hspells (by rwa [List.head?_drop])
        rw [CutInto.length_range (hstart.le.trans hstop) hlow, CutInto.length_range hstop hstart.le,
          Nat.add_sub_cancel' hlow, Nat.add_sub_cancel' hstart.le] at hadvance
        refine .inr ⟨⟨token, start⟩, ts, by rw [hadvance], hspells.ne_endOfText, ?_, rfl⟩
        rw [hadvance]
        exact (ih rfl hstop).mpr hts

/-- **The lexer cuts a text into its tokens.** It finds some tokens in a text exactly when the text
is cut into them, each as long as it can be, with nothing but blanks in between. -/
theorem toList_ofText_eq_ok_iff (cs : List Char) (tokens : List PlacedToken) :
    (ofText cs).toList = .ok tokens ↔ CutInto cs 0 tokens :=
  toList_ofLexer_iff_cutInto (l := .ofText cs) rfl (Nat.zero_le _)

end TokenStream

end Dialogue
