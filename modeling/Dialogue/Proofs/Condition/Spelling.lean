import Dialogue.Condition.Scan
import Dialogue.Text.Blank
import Mathlib.Data.List.TakeWhile

/-!
# How tokens are spelled

`Spells cs token` says that the text `cs`, taken for itself, is a spelling of `token`: a symbol, a
string between its quotes, a numeral, a word. It is a grammar of single tokens, and it knows of no
scanner and of nothing that stands around the text.

What stands around matters in one way only. `Token.joins token c` says that the character `c`,
directly behind a spelling of `token`, belongs to it or breaks it: a letter behind a name, a point
behind a numeral, an equals sign behind an exclamation mark.

The two together are what the scanner does. It finds a token only by a spelling that the next
character does not join (`spells_of_scan`), and such a spelling at the front of a text is always
what it takes (`scan_of_spells`).
-/

namespace Dialogue

/-! ## Spellings -/

namespace Spelling

/-- One digit or more. -/
structure Digits (cs : List Char) : Prop where
  ne_nil : cs ≠ []
  isDigit : ∀ c ∈ cs, c.isDigit = true

/-- A fraction: a point with digits behind it, or nothing. The second text are the digits. -/
inductive Fraction : List Char → List Char → Prop
  | none : Fraction [] []
  | point {ds : List Char} : Digits ds → Fraction ('.' :: ds) ds

/-- A power of ten: the letter, a sign or none, and digits; or nothing. -/
inductive Power : List Char → Int → Prop
  | none : Power [] 0
  | unsigned {e : Char} {ds : List Char} : e = 'e' ∨ e = 'E' → Digits ds →
      Power (e :: ds) (Decimal.digitsValue ds)
  | plus {e : Char} {ds : List Char} : e = 'e' ∨ e = 'E' → Digits ds →
      Power (e :: '+' :: ds) (Decimal.digitsValue ds)
  | minus {e : Char} {ds : List Char} : e = 'e' ∨ e = 'E' → Digits ds →
      Power (e :: '-' :: ds) (-(Decimal.digitsValue ds : Int))

/-- A numeral and the number that it denotes: digits, a fraction and a power of ten. The digits of
the fraction count as further digits, each of which takes one off the power. -/
inductive Numeral : List Char → Decimal → Prop
  | mk {whole fraction ds power : List Char} {k : Int} : Digits whole → Fraction fraction ds →
      Power power k →
      Numeral (whole ++ fraction ++ power)
        ⟨false, Decimal.digitsValue (whole ++ ds), k - ds.length⟩

/-- What stands between the quotes of a string, and the text that it denotes. Four pairs with a
backslash stand for one character; every other pair stands for itself. -/
inductive Inside : List Char → List Char → Prop
  | nil : Inside [] []
  | plain {c : Char} {cs value : List Char} : c ≠ '"' → c ≠ '\\' → Inside cs value →
      Inside (c :: cs) (c :: value)
  | lineFeed {cs value : List Char} : Inside cs value → Inside ('\\' :: 'n' :: cs) ('\n' :: value)
  | tab {cs value : List Char} : Inside cs value → Inside ('\\' :: 't' :: cs) ('\t' :: value)
  | quote {cs value : List Char} : Inside cs value → Inside ('\\' :: '"' :: cs) ('"' :: value)
  | backslash {cs value : List Char} : Inside cs value → Inside ('\\' :: '\\' :: cs) ('\\' :: value)
  | pair {c : Char} {cs value : List Char} : c ∉ ['n', 't', '"', '\\'] → Inside cs value →
      Inside ('\\' :: c :: cs) ('\\' :: c :: value)

/-- A word: a letter or an underscore, and word characters behind it. -/
inductive Word : List Char → Prop
  | mk {c : Char} {cs : List Char} : Text.isLetter c = true ∨ c = '_' →
      (∀ d ∈ cs, Text.isWordChar d = true) → Word (c :: cs)

/-- The words that are no names, with the values that they stand for. -/
def keywords : List (List Char × Value) :=
  [(['t', 'r', 'u', 'e'], .bool true), (['f', 'a', 'l', 's', 'e'], .bool false),
    (['n', 'u', 'l', 'l'], .null)]

end Spelling

open Spelling

/-- The text is a spelling of the token. Keywords count in any case of their letters. -/
inductive Spells : List Char → Token → Prop
  | openParen : Spells ['('] .openParen
  | closeParen : Spells [')'] .closeParen
  | bang : Spells ['!'] .bang
  | operator (op : BinaryOp) : Spells op.symbol.toList (.operator op)
  | string {cs value : List Char} : Inside cs value →
      Spells ('"' :: (cs ++ ['"'])) (.literal (.string (String.ofList value)))
  | number {cs : List Char} {d : Decimal} : Numeral cs d → Spells cs (.literal (.number d.toFloat))
  | keyword {cs word : List Char} {v : Value} : Word cs → (word, v) ∈ keywords →
      Text.sameIgnoringCase cs word = true → Spells cs (.literal v)
  | name {cs : List Char} : Word cs →
      (∀ k ∈ keywords, Text.sameIgnoringCase cs k.1 = false) → Spells cs (.name (String.ofList cs))

/-- Whether a character directly behind a spelling of the token belongs to it or breaks it. -/
def Token.joins : Token → Char → Bool
  | .literal (.number _), c => Text.isWordChar c || c == '.'
  | .literal (.string _), _ => false
  | .literal _, c => Text.isWordChar c
  | .name _, c => Text.isWordChar c
  | .bang, c => c == '='
  | .operator .less, c => c == '='
  | .operator .greater, c => c == '='
  | _, _ => false

/-! ## Characters -/

namespace Spelling

/-- All digits. -/
def digitChars : List Char := ['0', '1', '2', '3', '4', '5', '6', '7', '8', '9']

theorem mem_of_isDigit {c : Char} (h : c.isDigit = true) : c ∈ digitChars := by
  obtain ⟨hlow, hhigh⟩ : 48 ≤ c.toNat ∧ c.toNat ≤ 57 := by
    simpa [Char.isDigit, UInt32.le_iff_toNat_le] using h
  obtain ⟨n, hn, hc⟩ : ∃ n, n < 10 ∧ c.toNat = 48 + n := ⟨c.toNat - 48, by omega, by omega⟩
  rw [← Char.ofNat_toNat c, hc]
  clear hc hlow hhigh h
  revert n
  decide

/-- What is so for each digit of the list is so for all. -/
theorem of_isDigit {p : Char → Bool} (hall : digitChars.all p = true) {c : Char}
    (h : c.isDigit = true) : p c = true :=
  List.all_eq_true.mp hall c (mem_of_isDigit h)

theorem isWordChar_of_isDigit {c : Char} (h : c.isDigit = true) : Text.isWordChar c = true :=
  of_isDigit (by decide) h

/-- What cannot follow a numeral: a digit, a point, the letter of a power. -/
theorem not_joins_number {x : Float} {c : Char} (h : (Token.literal (.number x)).joins c = false) :
    c.isDigit = false ∧ c ≠ '.' ∧ c ≠ 'e' ∧ c ≠ 'E' := by
  rw [Token.joins, Bool.or_eq_false_iff] at h
  obtain ⟨hword, hpoint⟩ := h
  refine ⟨?_, by simpa using hpoint, ?_, ?_⟩
  · rw [← Bool.not_eq_true]
    intro hdigit
    rw [isWordChar_of_isDigit hdigit] at hword
    cases hword
  · rintro rfl
    exact absurd hword (by decide)
  · rintro rfl
    exact absurd hword (by decide)

/-! ## Runs of characters -/

theorem takeWhile_append_of_head {p : Char → Bool} {cs rest : List Char}
    (hcs : ∀ c ∈ cs, p c = true) (hrest : ∀ c ∈ rest.head?, p c = false) :
    (cs ++ rest).takeWhile p = cs := by
  rw [List.takeWhile_append_of_pos hcs]
  cases rest with
  | nil => simp
  | cons c rest => simp [hrest c rfl]

theorem dropWhile_append_of_head {p : Char → Bool} {cs rest : List Char}
    (hcs : ∀ c ∈ cs, p c = true) (hrest : ∀ c ∈ rest.head?, p c = false) :
    (cs ++ rest).dropWhile p = rest := by
  rw [List.dropWhile_append_of_pos hcs, Text.dropWhile_eq_self_iff.mpr hrest]

theorem head_of_takeWhile_eq_nil {p : Char → Bool} {cs : List Char} (h : cs.takeWhile p = []) :
    ∀ c ∈ cs.head?, p c = false := by
  intro c hc
  have hdrop := List.takeWhile_append_dropWhile (p := p) (l := cs)
  rw [h, List.nil_append] at hdrop
  exact Text.dropWhile_eq_self_iff.mp hdrop c hc

theorem digits_append {ds rest : List Char} (hds : Digits ds)
    (hrest : ∀ c ∈ rest.head?, c.isDigit = false) :
    Decimal.digits (ds ++ rest) = ds ∧ Decimal.afterDigits (ds ++ rest) = rest :=
  ⟨takeWhile_append_of_head hds.isDigit hrest, dropWhile_append_of_head hds.isDigit hrest⟩

/-- The digits at the front of a text are digits, if there are any. -/
theorem digits_of_ne_nil {cs : List Char} (h : Decimal.digits cs ≠ []) :
    Digits (Decimal.digits cs) :=
  ⟨h, fun _ => Decimal.isDigit_of_mem_digits⟩

/-! ## Numerals -/

theorem sign_of_digits {ds : List Char} (h : Digits ds) (rest : List Char) :
    Scan.sign (ds ++ rest) = ([], ds ++ rest) := by
  obtain ⟨d, ds, rfl⟩ := List.exists_cons_of_ne_nil h.ne_nil
  have hd : d.isDigit = true := h.isDigit d List.mem_cons_self
  rw [List.cons_append, Scan.sign]
  · rintro cs ⟨⟩
    cases hd
  · rintro cs ⟨⟩
    cases hd

theorem splitSign_of_digits {ds : List Char} (h : Digits ds) (rest : List Char) :
    Decimal.splitSign (ds ++ rest) = (false, ds ++ rest) := by
  obtain ⟨d, ds, rfl⟩ := List.exists_cons_of_ne_nil h.ne_nil
  have hd : d.isDigit = true := h.isDigit d List.mem_cons_self
  rw [List.cons_append, Decimal.splitSign]
  · rintro cs ⟨⟩
    cases hd
  · rintro cs ⟨⟩
    cases hd

/-- A fraction starts with a point. -/
theorem Fraction.head_isDigit {cs ds rest : List Char} (h : Fraction cs ds)
    (hrest : ∀ c ∈ rest.head?, c.isDigit = false) :
    ∀ c ∈ (cs ++ rest).head?, c.isDigit = false := by
  cases h with
  | none => exact hrest
  | point _ =>
    intro c hc
    cases hc
    rfl

/-- A power starts with its letter. -/
theorem Power.head {cs rest : List Char} {k : Int} {p : Char → Bool} (h : Power cs k)
    (he : p 'e' = false) (hE : p 'E' = false) (hrest : ∀ c ∈ rest.head?, p c = false) :
    ∀ c ∈ (cs ++ rest).head?, p c = false := by
  cases h with
  | none => exact hrest
  | unsigned hletter _ | plus hletter _ | minus hletter _ =>
    intro c hc
    cases hc
    rcases hletter with rfl | rfl <;> assumption

/-- A numeral cannot go on with a digit where its power stands. -/
theorem Power.head_isDigit {cs : List Char} {k : Int} (h : Power cs k) :
    ∀ c ∈ cs.head?, c.isDigit = false := by
  have hhead : ∀ c ∈ (cs ++ []).head?, c.isDigit = false := h.head rfl rfl (by simp)
  rwa [List.append_nil] at hhead

theorem Fraction.scan_append {cs ds rest : List Char} (h : Fraction cs ds)
    (hrest : ∀ c ∈ rest.head?, c.isDigit = false ∧ c ≠ '.') :
    Scan.fraction (cs ++ rest) = ⟨true, cs, rest⟩ := by
  cases h with
  | none =>
    cases rest with
    | nil => rfl
    | cons c rest =>
      rw [List.nil_append, Scan.fraction]
      rintro cs' h
      cases h
      exact (hrest '.' rfl).2 rfl
  | point hds =>
    obtain ⟨hdigits, hafter⟩ := digits_append hds fun c hc => (hrest c hc).1
    simp [Scan.fraction, hdigits, hafter, hds.ne_nil]

theorem Power.scan_append {cs rest : List Char} {k : Int} (h : Power cs k)
    (hrest : ∀ c ∈ rest.head?, c.isDigit = false ∧ c ≠ 'e' ∧ c ≠ 'E') :
    Scan.power (cs ++ rest) = ⟨true, cs, rest⟩ := by
  have hdigit : ∀ c ∈ rest.head?, c.isDigit = false := fun c hc => (hrest c hc).1
  cases h with
  | none =>
    cases rest with
    | nil => rfl
    | cons c rest =>
      obtain ⟨-, he, hE⟩ := hrest c rfl
      simp [Scan.power, he, hE]
  | @unsigned e ds hletter hds =>
    obtain ⟨hdigits, hafter⟩ := digits_append hds hdigit
    simp [Scan.power, hletter, sign_of_digits hds, hdigits, hafter, hds.ne_nil]
  | plus hletter hds =>
    obtain ⟨hdigits, hafter⟩ := digits_append hds hdigit
    simp [Scan.power, Scan.sign, hletter, hdigits, hafter, hds.ne_nil]
  | minus hletter hds =>
    obtain ⟨hdigits, hafter⟩ := digits_append hds hdigit
    simp [Scan.power, Scan.sign, hletter, hdigits, hafter, hds.ne_nil]

theorem powerOfText?_of_power {cs : List Char} {k : Int} (h : Power cs k) :
    Decimal.powerOfText? cs = some k := by
  cases h with
  | none => rfl
  | unsigned hletter hds =>
    have hsign := splitSign_of_digits hds []
    rw [List.append_nil] at hsign
    simp [Decimal.powerOfText?, hletter, hsign, hds.ne_nil, List.all_eq_true.mpr hds.isDigit]
  | plus hletter hds =>
    simp [Decimal.powerOfText?, Decimal.splitSign, hletter, hds.ne_nil,
      List.all_eq_true.mpr hds.isDigit]
  | minus hletter hds =>
    simp [Decimal.powerOfText?, Decimal.splitSign, hletter, hds.ne_nil,
      List.all_eq_true.mpr hds.isDigit]

/-- Behind the digits of a numeral stands its fraction, and behind this its power. -/
theorem Fraction.splitFraction_append {cs ds power : List Char} {k : Int} (h : Fraction cs ds)
    (hpower : Power power k) : Decimal.splitFraction (cs ++ power) = (ds, power) := by
  have hdigit := hpower.head_isDigit
  cases h with
  | none =>
    have hpoint : ∀ cs', power ≠ '.' :: cs' := by
      rintro cs' rfl
      cases hpower <;> simp_all
    rw [List.nil_append, Decimal.splitFraction.eq_def]
    split
    · exact absurd rfl (hpoint _)
    · rfl
  | point hds =>
    obtain ⟨hdigits, hafter⟩ := digits_append hds hdigit
    simp [Decimal.splitFraction, hdigits, hafter]

/-- A numeral is read as the number that it denotes. -/
theorem ofText?_of_numeral {cs : List Char} {d : Decimal} (h : Numeral cs d) :
    Decimal.ofText? cs = some d := by
  cases h with
  | @mk whole fraction ds power k hwhole hfraction hpower =>
    obtain ⟨hdigits, hafter⟩ := digits_append hwhole (hfraction.head_isDigit hpower.head_isDigit)
    rw [List.append_assoc, Decimal.ofText?, splitSign_of_digits hwhole]
    dsimp only
    rw [hdigits, hafter, hfraction.splitFraction_append hpower]
    simp [hwhole.ne_nil, powerOfText?_of_power hpower]

/-- A numeral starts with a digit. -/
theorem Numeral.exists_digit {cs : List Char} {d : Decimal} (h : Numeral cs d) :
    ∃ c tail, c.isDigit = true ∧ cs = c :: tail := by
  cases h with
  | @mk whole fraction ds power k hwhole _ _ =>
    obtain ⟨c, tail, rfl⟩ := List.exists_cons_of_ne_nil hwhole.ne_nil
    exact ⟨c, _, hwhole.isDigit c List.mem_cons_self, rfl⟩

/-! ## Words -/

theorem Word.startsName {c : Char} {cs : List Char} (h : Word (c :: cs)) :
    Scan.startsName c = true := by
  cases h with
  | mk hc _ => simpa [Scan.startsName] using hc

theorem Word.isWordChar {cs : List Char} (h : Word cs) :
    ∀ c ∈ cs, Text.isWordChar c = true := by
  cases h with
  | mk hc hcs =>
    intro d hd
    rcases List.mem_cons.mp hd with rfl | hd
    · exact Scan.isWordChar_of_startsName (Word.mk hc hcs).startsName
    · exact hcs d hd

end Spelling

/-! ## Scanning a spelling -/

namespace Scan

open Spelling

theorem scan_eq_number (pos : Nat) {c : Char} (cs : List Char) (h : c.isDigit = true) :
    scan pos (c :: cs) = number pos (c :: cs) := by
  have hmem := mem_of_isDigit h
  simp only [digitChars, List.mem_cons, List.not_mem_nil, or_false] at hmem
  rcases hmem with rfl | rfl | rfl | rfl | rfl | rfl | rfl | rfl | rfl | rfl <;> rfl

/-- A digit starts no name: the letters begin behind the digits. -/
theorem isDigit_of_startsName {c : Char} (h : startsName c = true) : c.isDigit = false := by
  rw [← Bool.not_eq_true]
  intro hdigit
  have hnot : (!startsName c) = true :=
    of_isDigit (p := fun c => !startsName c) (by decide) hdigit
  rw [h] at hnot
  cases hnot

theorem scan_eq_word (pos : Nat) {c : Char} (cs : List Char) (h : startsName c = true) :
    scan pos (c :: cs) = word (c :: cs) := by
  rw [scan]
  · rw [if_neg (by simp [isDigit_of_startsName h]), if_pos h]
  -- No symbol starts a name.
  all_goals
    rintro rfl
    exact absurd h (by decide)

/-- A numeral that nothing joins is scanned as the number that it denotes. -/
theorem number_of_numeral (pos : Nat) {cs rest : List Char} {d : Decimal} (h : Numeral cs d)
    (hrest : ∀ c ∈ rest.head?, joinsNumber c = false) :
    number pos (cs ++ rest) = ⟨.ok (.literal (.number d.toFloat)), cs, rest⟩ := by
  have hstop : ∀ c ∈ rest.head?, c.isDigit = false ∧ c ≠ '.' ∧ c ≠ 'e' ∧ c ≠ 'E' :=
    fun c hc => not_joins_number (x := d.toFloat) (hrest c hc)
  have hread := ofText?_of_numeral h
  cases h with
  | @mk whole fraction ds power k hwhole hfraction hpower =>
    -- What stands behind the digits, and what stands behind the fraction, goes on in no other way.
    have hbehind : ∀ c ∈ (power ++ rest).head?, (c.isDigit || c == '.') = false :=
      hpower.head rfl rfl fun c hc => by simp [hstop c hc]
    have hfront : ∀ c ∈ (fraction ++ (power ++ rest)).head?, c.isDigit = false :=
      hfraction.head_isDigit fun c hc => (Bool.or_eq_false_iff.mp (hbehind c hc)).1
    obtain ⟨hdigits, hafter⟩ := digits_append hwhole hfront
    have hfractionScan : Scan.fraction (fraction ++ (power ++ rest)) =
        ⟨true, fraction, power ++ rest⟩ :=
      hfraction.scan_append fun c hc => by simpa using hbehind c hc
    have hpowerScan : Scan.power (power ++ rest) = ⟨true, power, rest⟩ :=
      hpower.scan_append fun c hc => ⟨(hstop c hc).1, (hstop c hc).2.2⟩
    have hrun : ([] ++ rest).takeWhile joinsNumber = [] := takeWhile_append_of_head (by simp) hrest
    rw [List.append_assoc, List.append_assoc, number]
    dsimp only
    rw [hdigits, hafter, hfractionScan]
    dsimp only
    rw [hpowerScan]
    rw [List.nil_append] at hrun
    simp only [hrun, hread, ne_eq, not_true_eq_false, if_false, Bool.true_eq_false]

/-- Behind its opening quote a string is scanned up to its closing quote. -/
theorem quoted?_of_inside {cs value : List Char} (h : Inside cs value) (rest : List Char) :
    quoted? (cs ++ '"' :: rest) = some (value, cs ++ ['"'], rest) := by
  induction h with
  | nil => rfl
  | plain hquote hbackslash _ ih =>
    rw [List.cons_append, quoted?, ih]
    · rfl
    · exact hquote
    · intro d tail hd
      exact absurd hd hbackslash
  | lineFeed _ ih => simp [quoted?, ih, escaped]
  | tab _ ih => simp [quoted?, ih, escaped]
  | quote _ ih => simp [quoted?, ih, escaped]
  | backslash _ ih => simp [quoted?, ih, escaped]
  | @pair c cs value hc _ ih =>
    have hescaped : escaped c = ['\\', c] := by
      simp only [List.mem_cons, List.not_mem_nil, or_false, not_or] at hc
      rw [escaped] <;> simp [hc]
    simp [quoted?, ih, hescaped]

/-! ### Words -/

theorem ofWord_of_keyword {cs word : List Char} {v : Value} (hmem : (word, v) ∈ keywords)
    (h : Text.sameIgnoringCase cs word = true) : Token.ofWord cs = .literal v := by
  rw [Text.sameIgnoringCase, beq_iff_eq] at h
  simp only [keywords, List.mem_cons, List.not_mem_nil, or_false] at hmem
  rcases hmem with heq | heq | heq
  all_goals
    cases heq
    simp only [Token.ofWord, Token.ofKeyword?, Text.sameIgnoringCase, h]
    rfl

theorem ofWord_of_not_keyword {cs : List Char}
    (h : ∀ k ∈ keywords, Text.sameIgnoringCase cs k.1 = false) :
    Token.ofWord cs = .name (String.ofList cs) := by
  simp only [keywords, List.forall_mem_cons] at h
  obtain ⟨htrue, hfalse, hnull, -⟩ := h
  simp [Token.ofWord, Token.ofKeyword?, htrue, hfalse, hnull]

/-- A word spells what it is read as. -/
theorem spells_ofWord {cs : List Char} (h : Word cs) : Spells cs (.ofWord cs) := by
  by_cases hkey : ∃ k ∈ keywords, Text.sameIgnoringCase cs k.1 = true
  · obtain ⟨⟨word, v⟩, hmem, hsame⟩ := hkey
    rw [ofWord_of_keyword hmem hsame]
    exact .keyword h hmem hsame
  · have hname : ∀ k ∈ keywords, Text.sameIgnoringCase cs k.1 = false :=
      fun k hk => Bool.eq_false_iff.mpr fun hsame => hkey ⟨k, hk, hsame⟩
    rw [ofWord_of_not_keyword hname]
    exact .name h hname

/-- Behind a word stands what is no word character, whether it is a keyword or a name. -/
theorem joins_ofWord (cs : List Char) (c : Char) :
    (Token.ofWord cs).joins c = Text.isWordChar c := by
  unfold Token.ofWord Token.ofKeyword?
  split
  · rfl
  · split
    · rfl
    · split <;> rfl

theorem scan_of_word (pos : Nat) {cs rest : List Char} (h : Word cs)
    (hrest : ∀ c ∈ rest.head?, Text.isWordChar c = false) :
    scan pos (cs ++ rest) = ⟨.ok (.ofWord cs), cs, rest⟩ := by
  obtain ⟨c, tail, rfl⟩ : ∃ c tail, cs = c :: tail := by
    cases h
    exact ⟨_, _, rfl⟩
  rw [List.cons_append, scan_eq_word pos _ h.startsName, ← List.cons_append, word,
    takeWhile_append_of_head h.isWordChar hrest, dropWhile_append_of_head h.isWordChar hrest]

/-! ### All tokens -/

/-- **A spelling at the front of a text is what a scan takes**, if the next character does not join
it. -/
theorem scan_of_spells {cs rest : List Char} {token : Token} (h : Spells cs token)
    (hrest : ∀ c ∈ rest.head?, token.joins c = false) (pos : Nat) :
    scan pos (cs ++ rest) = ⟨.ok token, cs, rest⟩ := by
  have hequals : (∀ c ∈ rest.head?, (c == '=') = false) →
      ∀ (alone : Token) (op : BinaryOp) (c : Char),
      maybeEquals alone op c rest = ⟨.ok alone, [c], rest⟩ := by
    intro hrest alone op c
    rw [maybeEquals]
    rintro tail rfl
    exact absurd (hrest '=' rfl) (by decide)
  cases h with
  | openParen => rfl
  | closeParen => rfl
  | bang => exact hequals hrest ..
  | operator op =>
    cases op with
    | or | and | eq => rfl
    | notEq | lessEq | greaterEq => rfl
    | less => exact hequals hrest ..
    | greater => exact hequals hrest ..
  | @string cs value hinside =>
    show Scan.string pos (cs ++ ['"'] ++ rest) = _
    rw [List.append_assoc, List.singleton_append, Scan.string, quoted?_of_inside hinside]
  | number hnumeral =>
    obtain ⟨c, tail, hdigit, rfl⟩ := hnumeral.exists_digit
    rw [← number_of_numeral pos hnumeral hrest, List.cons_append, scan_eq_number pos _ hdigit]
  | keyword hword hmem hsame =>
    have hofWord := ofWord_of_keyword hmem hsame
    rw [← hofWord] at hrest ⊢
    exact scan_of_word pos hword fun c hc => by rw [← joins_ofWord, hrest c hc]
  | name hword hname =>
    have hofWord := ofWord_of_not_keyword hname
    rw [← hofWord] at hrest ⊢
    exact scan_of_word pos hword fun c hc => by rw [← joins_ofWord, hrest c hc]

/-! ## Spellings that are scanned -/

/-- The scan finds a token only by a spelling of it that the next character does not join. -/
def Sound (s : Scan) : Prop :=
  ∀ token, s.found = .ok token → Spells s.taken token ∧ ∀ c ∈ s.rest.head?, token.joins c = false

theorem sound_of_error (e : ConditionFault) (taken rest : List Char) :
    Sound ⟨.error e, taken, rest⟩ := by
  rintro token ⟨⟩

theorem sound_doubled (pos : Nat) {op : BinaryOp} {c : Char} (hop : op.symbol.toList = [c, c])
    (hjoins : ∀ d, (Token.operator op).joins d = false) (cs : List Char) :
    (doubled pos op c cs).Sound := by
  unfold doubled
  split
  · exact sound_of_error _ _ _
  · split
    · next hd =>
      rintro token ⟨⟩
      subst hd
      exact ⟨hop ▸ .operator op, fun d _ => hjoins d⟩
    · exact sound_of_error _ _ _

theorem sound_maybeEquals {alone : Token} {op : BinaryOp} {c : Char} (halone : Spells [c] alone)
    (hjoins : ∀ d, alone.joins d = (d == '=')) (hop : op.symbol.toList = [c, '='])
    (hopJoins : ∀ d, (Token.operator op).joins d = false) (cs : List Char) :
    (maybeEquals alone op c cs).Sound := by
  unfold maybeEquals
  split
  · rintro token ⟨⟩
    exact ⟨hop ▸ .operator op, fun d _ => hopJoins d⟩
  · next hne =>
    rintro token ⟨⟩
    refine ⟨halone, fun d hd => ?_⟩
    rw [hjoins, beq_eq_false_iff_ne]
    rintro rfl
    cases cs with
    | nil => cases hd
    | cons e cs =>
      cases hd
      exact hne cs rfl

theorem inside_of_quoted? {cs value taken rest : List Char}
    (h : quoted? cs = some (value, taken, rest)) :
    ∃ body, taken = body ++ ['"'] ∧ Inside body value := by
  fun_induction quoted? cs generalizing value taken with
  | case1 => cases h
  | case2 =>
    cases h
    exact ⟨[], rfl, .nil⟩
  | case3 c after ih =>
    obtain ⟨⟨value, taken, rest⟩, hquoted, heq⟩ := Option.map_eq_some_iff.mp h
    cases heq
    obtain ⟨body, rfl, hbody⟩ := ih hquoted
    refine ⟨'\\' :: c :: body, rfl, ?_⟩
    unfold escaped
    split
    · exact hbody.lineFeed
    · exact hbody.tab
    · exact hbody.quote
    · exact hbody.backslash
    · next hn ht hq hb =>
      refine .pair ?_ hbody
      simpa using ⟨hn, ht, hq, hb⟩
  | case4 c after hquote hpair ih =>
    obtain ⟨⟨value, taken, rest⟩, hquoted, heq⟩ := Option.map_eq_some_iff.mp h
    cases heq
    obtain ⟨body, rfl, hbody⟩ := ih hquoted
    refine ⟨c :: body, rfl, .plain hquote ?_ hbody⟩
    -- A backslash that is not the first of a pair is the last character, and the string is not
    -- closed.
    rintro rfl
    cases after with
    | nil => cases hquoted
    | cons d after => exact hpair d after rfl rfl

theorem sound_string (pos : Nat) (cs : List Char) : (Scan.string pos cs).Sound := by
  unfold Scan.string
  split
  · next value taken rest hquoted =>
    rintro token ⟨⟩
    obtain ⟨body, rfl, hbody⟩ := inside_of_quoted? hquoted
    exact ⟨.string hbody, fun _ _ => rfl⟩
  · exact sound_of_error _ _ _

theorem fraction_of_complete {cs : List Char} (h : (fraction cs).complete = true) :
    ∃ ds, Fraction (fraction cs).taken ds := by
  unfold fraction at h ⊢
  split
  · next tail =>
    have hne : Decimal.digits tail ≠ [] := by simpa using h
    exact ⟨_, .point (digits_of_ne_nil hne)⟩
  · exact ⟨_, .none⟩

theorem sign_cases (cs : List Char) :
    (sign cs).1 = [] ∨ (sign cs).1 = ['+'] ∨ (sign cs).1 = ['-'] := by
  unfold sign
  split <;> simp

theorem power_of_complete {cs : List Char} (h : (power cs).complete = true) :
    ∃ k, Power (power cs).taken k := by
  cases cs with
  | nil => exact ⟨0, .none⟩
  | cons c cs =>
    rw [power] at h ⊢
    split
    · next hletter =>
      rw [if_pos hletter] at h
      have hsign := sign_cases cs
      generalize sign cs = parts at h hsign
      obtain ⟨s, ds⟩ := parts
      have hds : Digits (Decimal.digits ds) := digits_of_ne_nil (by simpa using h)
      obtain rfl | rfl | rfl : s = [] ∨ s = ['+'] ∨ s = ['-'] := hsign
      · exact ⟨_, .unsigned hletter hds⟩
      · exact ⟨_, .plus hletter hds⟩
      · exact ⟨_, .minus hletter hds⟩
    · exact ⟨0, .none⟩

theorem sound_number (pos : Nat) {c : Char} {cs : List Char} (hc : c.isDigit = true) :
    (number pos (c :: cs)).Sound := by
  have hne : Decimal.digits (c :: cs) ≠ [] := by simp [Decimal.digits, hc]
  unfold number
  dsimp only
  split
  · exact sound_of_error _ _ _
  · next hfraction =>
    split
    · exact sound_of_error _ _ _
    · next hpower =>
      split
      · exact sound_of_error _ _ _
      · next hrun =>
        obtain ⟨ds, hfraction⟩ := fraction_of_complete (Bool.not_eq_false _ ▸ hfraction)
        obtain ⟨k, hpower⟩ := power_of_complete (Bool.not_eq_false _ ▸ hpower)
        have hnumeral := Numeral.mk (digits_of_ne_nil hne) hfraction hpower
        rw [ofText?_of_numeral hnumeral]
        rintro token ⟨⟩
        refine ⟨.number hnumeral, ?_⟩
        exact head_of_takeWhile_eq_nil (not_not.mp hrun)

theorem sound_word {c : Char} (cs : List Char) (hc : startsName c = true) :
    (word (c :: cs)).Sound := by
  have hwordChar := isWordChar_of_startsName hc
  have hword : Word ((c :: cs).takeWhile Text.isWordChar) := by
    rw [List.takeWhile_cons_of_pos hwordChar]
    refine .mk ?_ (List.all_eq_true.mp List.all_takeWhile)
    simpa [startsName] using hc
  rintro token ⟨⟩
  refine ⟨spells_ofWord hword, fun d hd => ?_⟩
  rw [joins_ofWord]
  have hhead : ((c :: cs).dropWhile Text.isWordChar).head? = some d := hd
  have hnot := List.head?_dropWhile_not Text.isWordChar (c :: cs)
  rw [hhead] at hnot
  exact hnot

/-- **A scan finds a token only by its spelling.** -/
theorem sound_scan (pos : Nat) (c : Char) (cs : List Char) : (scan pos (c :: cs)).Sound := by
  unfold scan
  split
  · contradiction
  · rintro token ⟨⟩
    exact ⟨.openParen, fun _ _ => rfl⟩
  · rintro token ⟨⟩
    exact ⟨.closeParen, fun _ _ => rfl⟩
  · exact sound_doubled _ rfl (fun _ => rfl) _
  · exact sound_doubled _ rfl (fun _ => rfl) _
  · exact sound_doubled _ rfl (fun _ => rfl) _
  · exact sound_maybeEquals .bang (fun _ => rfl) rfl (fun _ => rfl) _
  · exact sound_maybeEquals (.operator .less) (fun _ => rfl) rfl (fun _ => rfl) _
  · exact sound_maybeEquals (.operator .greater) (fun _ => rfl) rfl (fun _ => rfl) _
  · exact sound_string _ _
  · split
    · next hdigit => exact sound_number pos hdigit
    · split
      · next hname => exact sound_word _ hname
      · exact sound_of_error _ _ _

end Scan

end Dialogue
