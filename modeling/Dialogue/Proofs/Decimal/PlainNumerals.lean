import Dialogue.Proofs.Condition.Spelling
import Dialogue.Proofs.Decimal.Denoting
import Dialogue.Proofs.Decimal.Scientific

/-!
# Plain decimal notation

Which texts are read as numbers, and as which: `Plain.Numeral cs negative q` is the grammar of plain
decimal notation, with the number that a numeral denotes, and `Double.RoundsTo negative q x` says
what this number is rounded to. A text is read as `x` just when, without the blanks at its ends, it
is a numeral whose number is rounded to `x` (`readNumber_iff_plain`).

The same reading can be had from a reader that takes more than numerals, with two tests before it:
one looks at the first character, the other at all characters. Neither knows the grammar, and what
passes them need not be a numeral; but they keep out all that the general reader takes beside
numerals (`readNumber?_eq_readAny?`).
-/

namespace Dialogue

namespace Plain

open Spelling (Digits Power)
open Decimal (digitsValue digits afterDigits splitSign splitFraction)
open Double (signed)

/-- What stands before the power of ten: digits, with a point behind them or between them or
neither; or a point with digits behind it. Each digit behind the point counts a tenth of the one
before it. -/
inductive Mantissa : List Char → ℚ → Prop
  | whole {ds : List Char} : Digits ds → Mantissa ds (digitsValue ds)
  | point {ds fs : List Char} : Digits ds → (∀ c ∈ fs, c.isDigit = true) →
      Mantissa (ds ++ '.' :: fs) (digitsValue ds + digitsValue fs / 10 ^ fs.length)
  | fraction {fs : List Char} : Digits fs → Mantissa ('.' :: fs) (digitsValue fs / 10 ^ fs.length)

/-- A numeral without a sign, and its number. -/
inductive Unsigned : List Char → ℚ → Prop
  | mk {ms ps : List Char} {m : ℚ} {k : ℤ} : Mantissa ms m → Power ps k →
      Unsigned (ms ++ ps) (m * 10 ^ k)

/-- A numeral in plain decimal notation, whether it has a minus sign, and the number that it
denotes. -/
inductive Numeral : List Char → Bool → ℚ → Prop
  | unsigned {cs : List Char} {q : ℚ} : Unsigned cs q → Numeral cs false q
  | plus {cs : List Char} {q : ℚ} : Unsigned cs q → Numeral ('+' :: cs) false q
  | minus {cs : List Char} {q : ℚ} : Unsigned cs q → Numeral ('-' :: cs) true (-q)

/-! ## The number of the digits -/

theorem foldl_digits (n : ℕ) (ds : List Char) :
    ds.foldl (fun n d => 10 * n + (d.toNat - 48)) n = n * 10 ^ ds.length + digitsValue ds := by
  induction ds generalizing n with
  | nil => simp [digitsValue]
  | cons d ds ih =>
    rw [digitsValue, List.foldl_cons, List.foldl_cons, ih, ih, List.length_cons, pow_succ]
    ring

theorem digitsValue_append (ds fs : List Char) :
    digitsValue (ds ++ fs) = digitsValue ds * 10 ^ fs.length + digitsValue fs := by
  rw [digitsValue, List.foldl_append, foldl_digits]
  rfl

/-- The digits of the fraction as further digits, each of which takes one off the power. -/
theorem scaled_append (ds fs : List Char) (k : ℤ) :
    (digitsValue (ds ++ fs) : ℚ) * 10 ^ (k - fs.length) =
      (digitsValue ds + digitsValue fs / 10 ^ fs.length) * 10 ^ k := by
  rw [digitsValue_append, zpow_sub₀ (by norm_num : (10 : ℚ) ≠ 0), zpow_natCast]
  push_cast
  field_simp

/-! ## Reading numerals -/

theorem Mantissa.cut {ms ps : List Char} {m : ℚ} {k : ℤ} (h : Mantissa ms m) (hps : Power ps k) :
    ∃ ds fs, digits (ms ++ ps) = ds ∧ splitFraction (afterDigits (ms ++ ps)) = (fs, ps) ∧
      ¬ (ds = [] ∧ fs = []) ∧ m = digitsValue ds + digitsValue fs / 10 ^ fs.length := by
  have hfraction : ∀ {fs : List Char}, (∀ c ∈ fs, c.isDigit = true) →
      splitFraction ('.' :: (fs ++ ps)) = (fs, ps) := by
    intro fs hfs
    rw [splitFraction, digits, afterDigits, Spelling.takeWhile_append_of_head hfs hps.head_isDigit,
      Spelling.dropWhile_append_of_head hfs hps.head_isDigit]
  cases h with
  | whole hds =>
    obtain ⟨hdigits, hafter⟩ := Spelling.digits_append hds hps.head_isDigit
    refine ⟨_, [], hdigits, ?_, fun h => hds.ne_nil h.1, by simp [digitsValue]⟩
    rw [hafter]
    exact Spelling.Fraction.none.splitFraction_append hps
  | @point ds fs hds hfs =>
    have hpoint : ∀ c ∈ ('.' :: (fs ++ ps)).head?, c.isDigit = false := by
      intro c hc
      cases hc
      rfl
    obtain ⟨hdigits, hafter⟩ := Spelling.digits_append hds hpoint
    refine ⟨ds, fs, ?_, ?_, fun h => hds.ne_nil h.1, rfl⟩
    · rw [List.append_assoc, List.cons_append, hdigits]
    · rw [List.append_assoc, List.cons_append, hafter, hfraction hfs]
  | @fraction fs hfs =>
    have hzero : digitsValue [] = 0 := rfl
    refine ⟨[], fs, rfl, hfraction hfs.isDigit, fun h => hfs.ne_nil h.2, ?_⟩
    rw [hzero, Nat.cast_zero, zero_add]

/-- A numeral without a sign starts with a digit or a point. -/
theorem Unsigned.exists_head {cs : List Char} {q : ℚ} (h : Unsigned cs q) :
    ∃ c tail, (c.isDigit || c == '.') = true ∧ cs = c :: tail := by
  have hdigits : ∀ {ds : List Char}, Digits ds → ∀ rest, ∃ c tail,
      (c.isDigit || c == '.') = true ∧ ds ++ rest = c :: tail := by
    intro ds hds rest
    obtain ⟨d, ds, rfl⟩ := List.exists_cons_of_ne_nil hds.ne_nil
    exact ⟨d, ds ++ rest, Bool.or_eq_true_iff.mpr (.inl (hds.isDigit d List.mem_cons_self)), rfl⟩
  obtain ⟨hm, -⟩ := h
  cases hm with
  | whole hds => exact hdigits hds _
  | point hds _ =>
    rw [List.append_assoc]
    exact hdigits hds _
  | fraction _ => exact ⟨'.', _, rfl, rfl⟩

theorem Unsigned.splitSign {cs : List Char} {q : ℚ} (h : Unsigned cs q) :
    splitSign cs = (false, cs) := by
  obtain ⟨c, tail, hc, rfl⟩ := h.exists_head
  rw [Decimal.splitSign]
  · rintro cs ⟨⟩
    cases hc
  · rintro cs ⟨⟩
    cases hc

theorem ofText?_of_unsigned {cs body : List Char} {negative : Bool} {q : ℚ} (h : Unsigned body q)
    (hsign : Decimal.splitSign cs = (negative, body)) :
    ∃ d : Decimal, Decimal.ofText? cs = some d ∧ d.negative = negative ∧ d.magnitude = q := by
  obtain ⟨hm, hps⟩ := h
  obtain ⟨ds, fs, hdigits, hcut, hne, rfl⟩ := hm.cut hps
  rw [Decimal.ofText?, hsign]
  dsimp only
  rw [hdigits, hcut]
  dsimp only
  rw [if_neg hne, Spelling.powerOfText?_of_power hps]
  exact ⟨_, rfl, rfl, scaled_append ds fs _⟩

/-- A numeral is read, as the number that it denotes. -/
theorem Numeral.ofText? {cs : List Char} {negative : Bool} {q : ℚ} (h : Numeral cs negative q) :
    ∃ d : Decimal, Decimal.ofText? cs = some d ∧ d.negative = negative ∧
      signed negative d.magnitude = q := by
  cases h with
  | unsigned h => exact ofText?_of_unsigned h h.splitSign
  | plus h =>
    refine ofText?_of_unsigned h ?_
    rw [Decimal.splitSign]
  | minus h =>
    obtain ⟨d, hd, hnegative, rfl⟩ := ofText?_of_unsigned h (by rw [Decimal.splitSign])
    exact ⟨d, hd, hnegative, rfl⟩

/-! ## Numerals that are read -/

theorem splitSign_cases (cs : List Char) :
    ∃ body, cs = '-' :: body ∧ splitSign cs = (true, body) ∨
      cs = '+' :: body ∧ splitSign cs = (false, body) ∨
      cs = body ∧ splitSign cs = (false, body) := by
  unfold splitSign
  split
  · exact ⟨_, .inl ⟨rfl, rfl⟩⟩
  · exact ⟨_, .inr (.inl ⟨rfl, rfl⟩)⟩
  · exact ⟨_, .inr (.inr ⟨rfl, rfl⟩)⟩

theorem power_of_powerOfText? {cs : List Char} {k : ℤ} (h : Decimal.powerOfText? cs = some k) :
    Power cs k := by
  cases cs with
  | nil =>
    cases h
    exact .none
  | cons c cs =>
    rw [Decimal.powerOfText?] at h
    split at h
    · next hletter =>
      dsimp only at h
      split at h
      · next hdigits =>
        have hds : Digits (splitSign cs).2 := ⟨hdigits.1, List.all_eq_true.mp hdigits.2⟩
        cases h
        obtain ⟨body, ⟨rfl, hsign⟩ | ⟨rfl, hsign⟩ | ⟨rfl, hsign⟩⟩ := splitSign_cases cs <;>
          rw [hsign] at hds ⊢
        · exact .minus hletter hds
        · exact .plus hletter hds
        · exact .unsigned hletter hds
      · cases h
    · cases h

/-- The pieces that a text is cut into make up a numeral, if there is a digit before the power. -/
theorem unsigned_of_cut {body fs ps : List Char} {k : ℤ}
    (hcut : splitFraction (afterDigits body) = (fs, ps)) (hne : ¬ (digits body = [] ∧ fs = []))
    (hps : Power ps k) :
    Unsigned body (digitsValue (digits body ++ fs) * 10 ^ (k - fs.length)) := by
  have hbody := Decimal.digits_append_afterDigits body
  have hds : ∀ c ∈ digits body, c.isDigit = true := fun _ => Decimal.isDigit_of_mem_digits
  rw [scaled_append]
  generalize digits body = ds at hbody hne hds ⊢
  rw [← hbody]
  generalize afterDigits body = after at hcut
  unfold splitFraction at hcut
  split at hcut
  · next rest =>
    cases hcut
    have hfs : ∀ c ∈ digits rest, c.isDigit = true := fun _ => Decimal.isDigit_of_mem_digits
    have hrest := Decimal.digits_append_afterDigits rest
    generalize digits rest = fs at hne hfs hrest ⊢
    rw [← hrest]
    by_cases hnil : ds = []
    · have hzero : digitsValue [] = 0 := rfl
      rw [hnil, hzero, Nat.cast_zero, zero_add, List.nil_append, ← List.cons_append]
      exact .mk (.fraction ⟨fun h => hne ⟨hnil, h⟩, hfs⟩) hps
    · rw [← List.cons_append, ← List.append_assoc]
      exact .mk (.point ⟨hnil, hds⟩ hfs) hps
  · cases hcut
    have hzero : digitsValue [] = 0 := rfl
    rw [hzero, Nat.cast_zero, zero_div, add_zero]
    exact .mk (.whole ⟨fun h => hne ⟨h, rfl⟩, hds⟩) hps

theorem unsigned_of_ofText? {cs : List Char} {d : Decimal} (h : Decimal.ofText? cs = some d) :
    Unsigned (splitSign cs).2 d.magnitude ∧ d.negative = (splitSign cs).1 := by
  rw [Decimal.ofText?] at h
  dsimp only at h
  split at h
  · cases h
  · next hne =>
    obtain ⟨k, hpower, rfl⟩ := Option.map_eq_some_iff.mp h
    exact ⟨unsigned_of_cut rfl hne (power_of_powerOfText? hpower), rfl⟩

/-- What is read is a numeral. -/
theorem numeral_of_ofText? {cs : List Char} {d : Decimal} (h : Decimal.ofText? cs = some d) :
    Numeral cs d.negative (signed d.negative d.magnitude) := by
  obtain ⟨hbody, hnegative⟩ := unsigned_of_ofText? h
  rw [hnegative]
  obtain ⟨body, ⟨rfl, hsign⟩ | ⟨rfl, hsign⟩ | ⟨rfl, hsign⟩⟩ := splitSign_cases cs <;>
    rw [hsign] at hbody ⊢
  · exact .minus hbody
  · exact .plus hbody
  · exact .unsigned hbody

/-! ## Two tests before a general reader -/

/-- The general reader of doubles takes numerals, and beside them the names of the infinities and of
what is no number, in any case of their letters. -/
def readAny? (cs : List Char) : Option Float :=
  let (negative, body) := splitSign cs
  let word := body.map Char.toLower
  if word = ['i', 'n', 'f'] ∨ word = ['i', 'n', 'f', 'i', 'n', 'i', 't', 'y'] then
    some (.ofModel (.pack (.infinity (Double.signOf negative))))
  else if word = ['n', 'a', 'n'] then some (.ofModel (.pack .notANumber))
  else (Decimal.ofText? cs).map Decimal.toFloat

/-- Whether a text looks like a numeral: behind its sign a digit or a point comes first, and then
come only characters of numerals, in whatever order. -/
def looksPlain (cs : List Char) : Bool :=
  (splitSign cs).2.head?.any (fun c => c.isDigit || c == '.') &&
    (splitSign cs).2.all Decimal.isNumeralChar

/-- All names have an n in them. -/
theorem toLower_ne_n {c : Char} (h : Decimal.isNumeralChar c = true) : c.toLower ≠ 'n' := by
  rcases Bool.or_eq_true_iff.mp h with hdigit | hother
  · have hne : (c.toLower != 'n') = true :=
      Spelling.of_isDigit (p := fun c => c.toLower != 'n') (by decide) hdigit
    exact bne_iff_ne.mp hne
  · obtain rfl | rfl | rfl | rfl | rfl : c = '+' ∨ c = '-' ∨ c = '.' ∨ c = 'e' ∨ c = 'E' := by
      simpa using hother
    all_goals decide

theorem readAny?_of_isNumeralChar {cs : List Char}
    (h : ∀ c ∈ (splitSign cs).2, Decimal.isNumeralChar c = true) :
    readAny? cs = (Decimal.ofText? cs).map Decimal.toFloat := by
  have hword : 'n' ∉ (splitSign cs).2.map Char.toLower := by
    rw [List.mem_map]
    rintro ⟨c, hc, hn⟩
    exact toLower_ne_n (h c hc) hn
  have hname : ∀ name : List Char, 'n' ∈ name → (splitSign cs).2.map Char.toLower ≠ name := by
    rintro name hn rfl
    exact hword hn
  rw [readAny?]
  dsimp only
  rw [if_neg (not_or.mpr ⟨hname _ (by decide), hname _ (by decide)⟩), if_neg (hname _ (by decide))]

theorem looksPlain_of_ofText? {cs : List Char} {d : Decimal} (h : Decimal.ofText? cs = some d) :
    looksPlain cs = true := by
  obtain ⟨hbody, -⟩ := unsigned_of_ofText? h
  rw [looksPlain, Bool.and_eq_true]
  constructor
  · obtain ⟨c, tail, hc, hcons⟩ := hbody.exists_head
    rw [hcons]
    exact hc
  · rw [List.all_eq_true]
    intro c hc
    refine Decimal.isNumeralChar_of_ofText? h c ?_
    obtain ⟨body, ⟨rfl, hsign⟩ | ⟨rfl, hsign⟩ | ⟨rfl, hsign⟩⟩ := splitSign_cases cs <;>
      rw [hsign] at hc
    · exact List.mem_cons_of_mem _ hc
    · exact List.mem_cons_of_mem _ hc
    · exact hc

end Plain

/-- **Reading is the general reader behind the two tests, without the infinities.** -/
theorem readNumber?_eq_readAny? (s : String) :
    readNumber? s = if Plain.looksPlain (Text.trim s.toList) then
      (Plain.readAny? (Text.trim s.toList)).filter Float.isFinite else none := by
  rw [readNumber?]
  generalize Text.trim s.toList = cs
  by_cases hplain : Plain.looksPlain cs = true
  · have hchars := List.all_eq_true.mp (Bool.and_eq_true_iff.mp hplain).2
    rw [if_pos hplain, Plain.readAny?_of_isNumeralChar hchars]
    cases Decimal.ofText? cs with
    | none => rfl
    | some d => rw [Option.map_some, Option.filter_some]
  · rw [if_neg hplain]
    cases hread : Decimal.ofText? cs with
    | none => rfl
    | some d => exact absurd (Plain.looksPlain_of_ofText? hread) hplain

/-- **A text is read as a number just when it is a numeral in plain decimal notation**, blanks at
its ends aside, whose number is rounded to a finite double; and it is read as this double. -/
theorem readNumber_iff_plain (s : String) (x : Float) :
    readNumber? s = some x ↔
      ∃ negative q, Plain.Numeral (Text.trim s.toList) negative q ∧
        Double.RoundsTo negative q x := by
  rw [readNumber?]
  constructor
  · intro h
    split at h
    · cases h
    · next d hd =>
      split at h
      · next hfinite =>
        cases h
        exact ⟨d.negative, _, Plain.numeral_of_ofText? hd,
          (d.roundsTo_iff_toFloat _).mpr ⟨rfl, hfinite⟩⟩
      · cases h
  · rintro ⟨negative, q, hnumeral, hrounds⟩
    obtain ⟨d, hd, rfl, rfl⟩ := hnumeral.ofText?
    obtain ⟨rfl, hfinite⟩ := (d.roundsTo_iff_toFloat x).mp hrounds
    rw [hd]
    dsimp only
    rw [if_pos hfinite]

/-- A sign, a point with nothing before it and a power; a text that passes both tests and is no
numeral; and a numeral whose number is beyond the doubles. -/
example : readNumber? " -.5e1 " = some (-5) ∧ Plain.looksPlain ['1', 'e', '-'] = true ∧
    readNumber? "1e-" = none ∧ readNumber? "1e999" = none := by
  decide +kernel

end Dialogue
