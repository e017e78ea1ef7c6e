import Dialogue.Proofs.Decimal.Comparison
import Dialogue.Proofs.Store.Assigned

/-!
# Literals in commands and in conditions

A command reads the text behind its equals sign in one way, and the lexer of conditions reads
literals in another. They agree on what they both take for a literal: when a command has set a
variable to a literal, a condition finds the variable equal to it, with one exception. A numeral
that is too large for a finite number is an infinite number in a condition, and a text in a command;
such a variable never equals the numeral that it was set to (`Scene.compares_of_runsText_set`).

A string with a backslash is left aside. The pairs with a backslash stand for other characters in a
condition only.
-/

namespace Dialogue

/-! ## Values of literals -/

namespace Spelling

/-- Without a backslash, what stands between the quotes is the text that it denotes. -/
theorem Inside.eq_of_not_backslash {cs value : List Char} (h : Inside cs value) (hcs : '\\' ∉ cs) :
    value = cs := by
  induction h with
  | nil => rfl
  | plain _ _ _ ih => rw [ih fun hmem => hcs (List.mem_cons_of_mem _ hmem)]
  | lineFeed | tab | quote | backslash | pair => exact absurd List.mem_cons_self hcs

end Spelling

namespace Value

/-- Whether a value is finite, as all but some numbers are. -/
def isFinite : Value → Bool
  | .number x => x.isFinite
  | _ => true

/-- A keyword has the value that it stands for, in any case of its letters. -/
theorem ofText_of_keyword {cs word : List Char} {v : Value} (h : (word, v) ∈ Spelling.keywords)
    (hv : v ≠ .null) (hcs : Text.Trimmed cs) (hsame : Text.sameIgnoringCase cs word = true) :
    ofText cs = v := by
  rw [Text.sameIgnoringCase, beq_iff_eq] at hsame
  simp only [Spelling.keywords, List.mem_cons, List.not_mem_nil, or_false] at h
  rcases h with heq | heq | heq
  · cases heq
    simp only [ofText, hcs.eq, Text.sameIgnoringCase, hsame]
    rfl
  · cases heq
    simp only [ofText, hcs.eq, Text.sameIgnoringCase, hsame]
    rfl
  · cases heq
    exact absurd rfl hv

/-- **The value that a command takes a literal for equals the literal**, if this is finite, and does
not otherwise. -/
theorem looseEq_ofText {cs : List Char} {v : Value} (h : Spells cs (.literal v)) (hv : v ≠ .null)
    (hplain : ∀ str, v = .string str → '\\' ∉ cs) : (ofText cs).looseEq v = v.isFinite := by
  cases h with
  | @string inside value hinside =>
    have hcs : '\\' ∉ inside := fun hmem =>
      hplain _ rfl (List.mem_cons_of_mem _ (List.mem_append_left _ hmem))
    rw [ofText_quoted, hinside.eq_of_not_backslash hcs]
    exact beq_self_eq_true _
  | @number _ d hnumeral =>
    have hread := Spelling.ofText?_of_numeral hnumeral
    rw [ofText_of_numeral hread]
    cases hfinite : d.toFloat.isFinite with
    | true =>
      have hself := Decimal.beq_self (Decimal.isNumber_of_isFinite hfinite)
      simp [looseEq, asNumber?, isFinite, hself, hfinite]
    | false =>
      have hnone : readNumber? (String.ofList cs) = none := by
        rw [Decimal.readNumber?_of_ofText? hread, hfinite]
        rfl
      simp [looseEq, asNumber?, isFinite, hnone, hfinite]
  | keyword hword hmem hsame =>
    have htrim : Text.Trimmed cs := (Spells.keyword hword hmem hsame).trimmed
    rw [ofText_of_keyword hmem hv htrim hsame]
    cases v with
    | bool b => exact beq_self_eq_true b
    | null => exact absurd rfl hv
    | number x => simp [Spelling.keywords] at hmem
    | string str => simp [Spelling.keywords] at hmem

end Value

/-! ## Comparisons with a literal -/

section Comparison

variable {name literal : String} {v : Value}

/-- The comparison of a variable with a literal. -/
theorem Expr.ofText_comparison (hname : Spells name.toList (.name name))
    (hliteral : Spells literal.toList (.literal v)) (op : BinaryOp) :
    ofText (name.toList ++ ' ' :: op.symbol.toList ++ ' ' :: literal.toList) =
      .ok (.binary op (.variable name) (.literal v)) := by
  have hspace : ∀ cs : List Char, ∀ c ∈ (' ' :: cs).head?, c = ' ' ∨ c = ')' := by simp
  have hright := (Lexes.of_spelling hliteral).space
  have hop := ((Spells.operator op).lexesBefore _ _ hright (hspace _)).space
  have hlexes := hname.lexesBefore _ _ hop (hspace _)
  have htext : name.toList ++ ' ' :: (op.symbol.toList ++ ' ' :: literal.toList) =
      name.toList ++ ' ' :: op.symbol.toList ++ ' ' :: literal.toList := by simp
  have htokens : (Expr.binary op (.variable name) (.literal v)).tokens =
      [.name name] ++ ([.operator op] ++ [.literal v]) := by cases op <;> rfl
  have hnesting : (Expr.binary op (.variable name) (.literal v)).nesting ≤ maxDepth := by
    cases op <;> exact Nat.zero_le _
  have hderives := (Expr.binary op (.variable name) (.literal v)).derives_tokens
  rw [← htokens, htext] at hlexes
  exact ofText_of_lexes hlexes
    ((hderives.of_strength_le .or (level _).strength_or_le).mono hnesting)

/-- A comparison with a literal compares the value of the variable with it. -/
theorem Store.holds_comparison (s : Store) (hname : Spells name.toList (.name name))
    (hliteral : Spells literal.toList (.literal v)) :
    s.holds (name ++ " == " ++ literal) = .ok ((s.read name).looseEq v) ∧
      s.holds (name ++ " != " ++ literal) = .ok (!(s.read name).looseEq v) := by
  have heq := Expr.ofText_comparison hname hliteral .eq
  have hnotEq := Expr.ofText_comparison hname hliteral .notEq
  constructor
  · rw [holds_of_ofText (e := .binary .eq (.variable name) (.literal v))
      (by simpa [BinaryOp.symbol] using heq)]
    rfl
  · rw [holds_of_ofText (e := .binary .notEq (.variable name) (.literal v))
      (by simpa [BinaryOp.symbol] using hnotEq)]
    rfl

/-- A command sets a variable to a literal, and conditions compare the variable with the literal. -/
theorem Scene.compares_of_spells (hname : Spells name.toList (.name name))
    (hliteral : Spells literal.toList (.literal v)) (hv : v ≠ .null)
    (hplain : ∀ str, v = .string str → '\\' ∉ literal.toList) (g : Graph) (s : Scene) :
    ∃ s', s.RunsText g ("set " ++ name ++ " = " ++ literal) s' ∧
      s'.vars.holds (name ++ " == " ++ literal) = .ok v.isFinite ∧
      s'.vars.holds (name ++ " != " ++ literal) = .ok (!v.isFinite) := by
  have hread : (s.assign name (Value.ofText literal.toList)).vars.read name =
      Value.ofText literal.toList := (Store.read_set ..).trans (if_pos rfl)
  obtain ⟨heq, hnotEq⟩ := Store.holds_comparison
    (s.assign name (Value.ofText literal.toList)).vars hname hliteral
  rw [hread, Value.looseEq_ofText hliteral hv hplain] at heq hnotEq
  exact ⟨_, runsText_set hname g s literal, heq, hnotEq⟩

/-- **A literal means the same in a command and in a condition, unless it is too large for a finite
number.** The lexer takes a trimmed text for one literal, other than null. When a command has set a
variable to it, the variable is equal to the literal in a condition if this is finite, and not equal
to it otherwise. -/
theorem Scene.compares_of_runsText_set (hname : Spells name.toList (.name name))
    (htokens : (TokenStream.ofText literal.toList).tokens = .ok [.literal v])
    (htrim : Text.Trimmed literal.toList) (hv : v ≠ .null)
    (hplain : ∀ str, v = .string str → '\\' ∉ literal.toList) (g : Graph) (s : Scene) :
    ∃ s', s.RunsText g ("set " ++ name ++ " = " ++ literal) s' ∧
      s'.vars.holds (name ++ " == " ++ literal) = .ok v.isFinite ∧
      s'.vars.holds (name ++ " != " ++ literal) = .ok (!v.isFinite) :=
  have hlexes := TokenStream.tokens_ofText_eq_ok_iff.mp htokens
  compares_of_spells hname (hlexes.spells_of_singleton htrim) hv hplain g s

end Comparison

/-- One and a power of ten. -/
theorem numeral_one_power {ds : List Char} (h : Spelling.Digits ds) :
    Spelling.Numeral ('1' :: 'e' :: ds) ⟨false, 1, Decimal.digitsValue ds⟩ := by
  have hone : Spelling.Digits ['1'] := ⟨by decide, List.all_eq_true.mp (by decide)⟩
  have hnumeral := Spelling.Numeral.mk hone .none (.unsigned (.inl rfl) h)
  rwa [List.length_nil, Int.natCast_zero, Int.sub_zero] at hnumeral

/-- A numeral with a power of ten. -/
theorem Scene.compares_of_runsText_set_hundred :
    ∃ s', initial.RunsText .empty ("set " ++ "x" ++ " = " ++ "1e2") s' ∧
      s'.vars.holds ("x" ++ " == " ++ "1e2") = .ok true ∧
      s'.vars.holds ("x" ++ " != " ++ "1e2") = .ok false := by
  have hnumeral : Spelling.Numeral "1e2".toList ⟨false, 1, 2⟩ :=
    numeral_one_power ⟨by decide, List.all_eq_true.mp (by decide)⟩
  have htokens := TokenStream.tokens_ofText_eq_ok_iff.mpr (Lexes.of_spelling (.number hnumeral))
  have hx : Spells "x".toList (.name "x") := .of_isLetter (by decide)
  have hcompares := compares_of_runsText_set hx htokens (by decide) nofun nofun .empty initial
  have hfinite : (Value.number (Decimal.toFloat ⟨false, 1, 2⟩)).isFinite = true := by decide +kernel
  rwa [hfinite] at hcompares

/-- **A numeral that is too large.** The lexer takes it for a number, the command for a text, and
these are not equal. -/
theorem Scene.not_equal_huge :
    Text.Trimmed "1e999".toList ∧
      (∃ x, (TokenStream.ofText "1e999".toList).tokens = .ok [.literal (.number x)]) ∧
      ∃ s', initial.RunsText .empty ("set " ++ "x" ++ " = " ++ "1e999") s' ∧
        s'.vars.holds ("x" ++ " == " ++ "1e999") = .ok false ∧
        s'.vars.holds ("x" ++ " != " ++ "1e999") = .ok true := by
  have hnumeral : Spelling.Numeral "1e999".toList ⟨false, 1, 999⟩ :=
    numeral_one_power ⟨by decide, List.all_eq_true.mp (by decide)⟩
  have hspells := Spells.number hnumeral
  have htokens := TokenStream.tokens_ofText_eq_ok_iff.mpr (Lexes.of_spelling hspells)
  have hx : Spells "x".toList (.name "x") := .of_isLetter (by decide)
  have hcompares := compares_of_spells hx hspells nofun nofun .empty initial
  have hinfinite : (Value.number (Decimal.toFloat ⟨false, 1, 999⟩)).isFinite = false := by
    decide +kernel
  rw [hinfinite] at hcompares
  exact ⟨by decide, ⟨_, htokens⟩, hcompares⟩

end Dialogue
