import Dialogue.Proofs.Condition.Written
import Dialogue.Proofs.Decimal.Denoting

/-!
# Blanks around conditions

Blanks at the ends of a condition make no difference to the expression that it holds
(`Expr.ofText_trim_eq_ok_iff`). Those in front are skipped before the first token. Those behind
belong to no token, since no spelling ends in a blank (`Spells.trimmed`), and they join none either.

So a trimmed text that consists of one token is a spelling of it (`Lexes.spells_of_singleton`).
-/

namespace Dialogue

/-! ## Spellings and blanks -/

/-- A spelling has no blanks at its ends. -/
theorem Spells.trimmed {cs : List Char} {token : Token} (h : Spells cs token) :
    Text.Trimmed cs := by
  have hword : ∀ {cs}, Spelling.Word cs → Text.Trimmed cs := fun h =>
    Text.trimmed_of_not_blank fun c hc => Text.isBlank_of_isWordChar (h.isWordChar c hc)
  cases h with
  | openParen | closeParen | bang => rfl
  | operator op => cases op <;> rfl
  | string _ => exact Text.trimmed_of_ends (by decide) (by decide)
  | number hnumeral => exact Decimal.trimmed_of_ofText? (Spelling.ofText?_of_numeral hnumeral)
  | keyword h _ _ => exact hword h
  | name h _ => exact hword h

/-- A blank joins no token. -/
theorem Token.joins_of_isBlank (token : Token) {c : Char} (h : Text.isBlank c = true) :
    token.joins c = false := by
  refine token.joins_of_not_word ?_ ?_ ?_
  · rw [← Bool.not_eq_true]
    intro hword
    rw [Text.isBlank_of_isWordChar hword] at h
    cases h
  · rintro rfl
    exact absurd h (by decide)
  · rintro rfl
    exact absurd h (by decide)

/-! ## Texts and blanks -/

namespace Lexes

variable {cs gap : List Char} {token : Token} {ts : List Token}

theorem nil_iff : Lexes cs [] ↔ ∀ c ∈ cs, Text.isBlank c = true := by
  rw [← List.dropWhile_eq_nil_iff]
  constructor
  · rintro ⟨h⟩
    exact h
  · exact .blank

/-- Blanks in front make no difference. -/
theorem of_blanks (hgap : ∀ c ∈ gap, Text.isBlank c = true) (h : Lexes cs ts) :
    Lexes (gap ++ cs) ts :=
  h.of_dropWhile_eq (List.dropWhile_append_of_pos hgap)

/-- The first token is spelled behind blanks, and the others are those of what follows. -/
theorem cons_iff :
    Lexes cs (token :: ts) ↔
      ∃ gap piece rest, cs = gap ++ (piece ++ rest) ∧ (∀ c ∈ gap, Text.isBlank c = true) ∧
        Spells piece token ∧ (∀ c ∈ rest.head?, token.joins c = false) ∧ Lexes rest ts := by
  constructor
  · intro h
    cases h with
    | cons hfound hend hrest =>
      obtain ⟨gap, piece, htext, hgap, hspells, hnext⟩ := Scan.exists_of_found hfound hend
      exact ⟨gap, piece, _, htext, hgap, hspells, hnext, hrest⟩
  · rintro ⟨gap, piece, rest, rfl, hgap, hspells, hnext, hrest⟩
    exact .of_blanks hgap (.of_spells hspells hnext hrest)

/-- Blanks behind make no difference. -/
theorem trimEnd_iff : Lexes (Text.trimEnd cs) ts ↔ Lexes cs ts := by
  induction ts generalizing cs with
  | nil => rw [nil_iff, nil_iff, ← Text.trim_eq_nil_iff, ← Text.trim_eq_nil_iff, Text.trim_trimEnd]
  | cons token ts ih =>
    rw [cons_iff, cons_iff]
    constructor
    · rintro ⟨gap, piece, rest, heq, hgap, hspells, hnext, hrest⟩
      obtain ⟨back, hback, hcs⟩ := Text.exists_eq_trimEnd_append cs
      refine ⟨gap, piece, rest ++ back, by rw [hcs, heq]; simp, hgap, hspells, ?_, ?_⟩
      · intro c hc
        cases rest with
        | nil => exact token.joins_of_isBlank (hback c (List.mem_of_mem_head? hc))
        | cons d rest => exact hnext c hc
      · rw [← ih, Text.trimEnd_append_of_blank hback]
        exact ih.mpr hrest
    · rintro ⟨gap, piece, rest, rfl, hgap, hspells, hnext, hrest⟩
      -- The blanks that are taken off stand behind the spelling.
      refine ⟨gap, piece, Text.trimEnd rest,
        Text.trimEnd_append_append hspells.trimmed hspells.ne_nil gap rest, hgap, hspells, ?_,
        ih.mpr hrest⟩
      intro c hc
      obtain ⟨back, hback⟩ := Text.trimEnd_isPrefix rest
      refine hnext c ?_
      rw [← hback, List.head?_append, hc, Option.some_or]
      rfl

/-- **Blanks at the ends make no difference** to the tokens of a text. -/
theorem trim_iff : Lexes (Text.trim cs) ts ↔ Lexes cs ts := by
  have hdrop : (Text.trimStart cs).dropWhile Text.isBlank = cs.dropWhile Text.isBlank :=
    List.dropWhile_idempotent _ _
  rw [Text.trim, trimEnd_iff]
  exact ⟨of_dropWhile_eq hdrop.symm, of_dropWhile_eq hdrop⟩

/-- A spelling consists of its token. -/
theorem of_spelling (h : Spells cs token) : Lexes cs [token] := by
  have hlexes := h.lexesBefore [] [] (.blank rfl) (by simp)
  rwa [List.append_nil] at hlexes

/-- A trimmed text that consists of one token is a spelling of it. -/
theorem spells_of_singleton (h : Lexes cs [token]) (hcs : Text.Trimmed cs) : Spells cs token := by
  obtain ⟨gap, piece, rest, heq, hgap, hspells, -, hrest⟩ := cons_iff.mp h
  have hpiece : cs = piece := calc
    cs = Text.trim (gap ++ (piece ++ rest)) := heq ▸ hcs.eq.symm
    _ = Text.trim (piece ++ rest) := Text.trim_blanks_append hgap
    _ = Text.trim piece := Text.trim_append_of_blank (nil_iff.mp hrest)
    _ = piece := hspells.trimmed
  exact hpiece ▸ hspells

end Lexes

/-- **Blanks at the ends make no difference** to the expression that a text holds. -/
theorem Expr.ofText_trim_eq_ok_iff {cs : List Char} {e : Expr} :
    ofText (Text.trim cs) = .ok e ↔ ofText cs = .ok e := by
  have hblank : (Text.trim cs).all Text.isBlank = cs.all Text.isBlank := by
    rw [Bool.eq_iff_iff, List.all_eq_true, List.all_eq_true, ← Text.trim_eq_nil_iff,
      ← Text.trim_eq_nil_iff, Text.trim_trim]
  simp only [ofText_eq_ok_iff, TokenStream.tokens_ofText_eq_ok_iff, Lexes.trim_iff, hblank]

end Dialogue
