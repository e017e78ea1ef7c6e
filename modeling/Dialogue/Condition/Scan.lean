import Dialogue.Condition.Fault
import Dialogue.Text.Letter

/-!
# Scanning one token

`scan` looks at the front of a text and takes the longest token that starts there. What it takes and
what it leaves make up the text again (`taken_append_rest_scan`), and it takes at least one
character unless there is none (`taken_scan_ne_nil`). A scan that fails takes characters too: those
it looked at before it failed, so that scanning can go on behind them.
-/

namespace Dialogue

/-- What a scan found at the front of a text: a token or a fault, the characters it took, and those
it left. -/
structure Scan where
  found : Except ConditionFault Token
  taken : List Char
  rest : List Char

namespace Scan

/-! ### Operators -/

/-- A token of one character. -/
def single (token : Token) (c : Char) (rest : List Char) : Scan := ⟨.ok token, [c], rest⟩

/-- The scan behind a character `c` that is an operator only if it stands twice. -/
def doubled (pos : Nat) (op : BinaryOp) (c : Char) : List Char → Scan
  | [] => ⟨.error (.unknownOperator c pos), [c], []⟩
  | d :: rest =>
    if d = c then ⟨.ok (.operator op), [c, d], rest⟩
    else ⟨.error (.unknownOperator c pos), [c], d :: rest⟩

/-- The scan behind a character `c` that is one token alone and another before an equals sign. -/
def maybeEquals (alone : Token) (withEquals : BinaryOp) (c : Char) : List Char → Scan
  | '=' :: rest => ⟨.ok (.operator withEquals), [c, '='], rest⟩
  | rest => ⟨.ok alone, [c], rest⟩

/-! ### Strings -/

/-- What a backslash followed by `c` stands for. A pair without a meaning of its own stands for
itself. -/
def escaped : Char → List Char
  | 'n' => ['\n']
  | 't' => ['\t']
  | '"' => ['"']
  | '\\' => ['\\']
  | c => ['\\', c]

/-- A string whose opening quote has been taken: what it denotes, its characters up to and with the
closing quote, and what follows them. Without a closing quote there is no string. -/
def quoted? : List Char → Option (List Char × List Char × List Char)
  | [] => none
  | '"' :: rest => some ([], ['"'], rest)
  | '\\' :: c :: rest =>
    (quoted? rest).map fun (value, taken, after) => (escaped c ++ value, '\\' :: c :: taken, after)
  | c :: rest =>
    (quoted? rest).map fun (value, taken, after) => (c :: value, c :: taken, after)

/-- The scan behind an opening quote. A string that is not closed takes the whole text. -/
def string (pos : Nat) (cs : List Char) : Scan :=
  match quoted? cs with
  | some (value, taken, rest) =>
    ⟨.ok (.literal (.string (String.ofList value))), '"' :: taken, rest⟩
  | none => ⟨.error (.unterminatedString pos), '"' :: cs, []⟩

/-! ### Numbers -/

/-- A part of a number: whether it is complete, the characters it takes and those it leaves. -/
structure Part where
  complete : Bool
  taken : List Char
  rest : List Char

/-- The fraction at the front of a text. A point needs a digit behind it. -/
def fraction : List Char → Part
  | '.' :: cs => ⟨Decimal.digits cs ≠ [], '.' :: Decimal.digits cs, Decimal.afterDigits cs⟩
  | cs => ⟨true, [], cs⟩

/-- The sign at the front of a text and what follows it. -/
def sign : List Char → List Char × List Char
  | '+' :: cs => (['+'], cs)
  | '-' :: cs => (['-'], cs)
  | cs => ([], cs)

/-- The power of ten at the front of a text. The letter needs a digit behind it and its sign. -/
def power : List Char → Part
  | [] => ⟨true, [], []⟩
  | c :: cs =>
    if c = 'e' ∨ c = 'E' then
      let (s, ds) := sign cs
      ⟨Decimal.digits ds ≠ [], c :: s ++ Decimal.digits ds, Decimal.afterDigits ds⟩
    else ⟨true, [], c :: cs⟩

/-- Whether a character cannot follow a number directly. -/
def joinsNumber (c : Char) : Bool := Text.isWordChar c || c == '.'

/-- The fault of a number that cannot be read. -/
def invalidNumber (pos : Nat) (taken rest : List Char) : Scan :=
  ⟨.error (.invalidNumber (String.ofList taken) pos), taken, rest⟩

/-- The scan of a text that starts with a digit. A number that runs into a name or into a second
point is no number, and the whole run is taken. -/
def number (pos : Nat) (cs : List Char) : Scan :=
  let whole := Decimal.digits cs
  let f := fraction (Decimal.afterDigits cs)
  if f.complete = false then invalidNumber pos (whole ++ f.taken) f.rest
  else
    let p := power f.rest
    let taken := whole ++ f.taken ++ p.taken
    if p.complete = false then invalidNumber pos taken p.rest
    else
      let run := p.rest.takeWhile joinsNumber
      if run ≠ [] then invalidNumber pos (taken ++ run) (p.rest.dropWhile joinsNumber)
      else
        match Decimal.ofText? taken with
        | some d => ⟨.ok (.literal (.number d.toFloat)), taken, p.rest⟩
        | none => invalidNumber pos taken p.rest

/-! ### Names -/

/-- The scan of a text that starts with a name. -/
def word (cs : List Char) : Scan :=
  ⟨.ok (.ofWord (cs.takeWhile Text.isWordChar)), cs.takeWhile Text.isWordChar,
    cs.dropWhile Text.isWordChar⟩

/-- Whether a name can start with a character. -/
def startsName (c : Char) : Bool := Text.isLetter c || c == '_'

end Scan

open Scan in
/-- The token at the front of a text, which starts at position `pos` and not with a blank. -/
def scan (pos : Nat) : List Char → Scan
  | [] => ⟨.ok .endOfText, [], []⟩
  | '(' :: cs => single .openParen '(' cs
  | ')' :: cs => single .closeParen ')' cs
  | '&' :: cs => doubled pos .and '&' cs
  | '|' :: cs => doubled pos .or '|' cs
  | '=' :: cs => doubled pos .eq '=' cs
  | '!' :: cs => maybeEquals .bang .notEq '!' cs
  | '<' :: cs => maybeEquals (.operator .less) .lessEq '<' cs
  | '>' :: cs => maybeEquals (.operator .greater) .greaterEq '>' cs
  | '"' :: cs => string pos cs
  | c :: cs =>
    if c.isDigit then number pos (c :: cs)
    else if startsName c then word (c :: cs)
    else ⟨.error (.unexpectedCharacter c pos), [c], cs⟩

namespace Scan

/-! ### What a scan takes and leaves -/

theorem quoted?_append {cs value taken rest : List Char}
    (h : quoted? cs = some (value, taken, rest)) : taken ++ rest = cs := by
  fun_induction quoted? cs generalizing value taken with
  | case1 => simp at h
  | case2 =>
    obtain ⟨-, rfl, rfl⟩ := by simpa using h
    rfl
  | case3 c after ih =>
    obtain ⟨⟨v, t, r⟩, hq, heq⟩ := Option.map_eq_some_iff.1 h
    obtain ⟨-, rfl, rfl⟩ := heq
    simp [ih hq]
  | case4 c after _ _ ih =>
    obtain ⟨⟨v, t, r⟩, hq, heq⟩ := Option.map_eq_some_iff.1 h
    obtain ⟨-, rfl, rfl⟩ := heq
    simp [ih hq]

theorem fraction_append (cs : List Char) : (fraction cs).taken ++ (fraction cs).rest = cs := by
  unfold fraction
  split
  · simp [Decimal.digits_append_afterDigits]
  · simp

theorem sign_append (cs : List Char) : (sign cs).1 ++ (sign cs).2 = cs := by
  unfold sign
  split <;> simp

theorem power_append (cs : List Char) : (power cs).taken ++ (power cs).rest = cs := by
  cases cs with
  | nil => rfl
  | cons c cs =>
    rw [power]
    split
    · have hs := sign_append cs
      simp only [List.cons_append, List.append_assoc, Decimal.digits_append_afterDigits, hs]
    · simp

theorem number_append (pos : Nat) (cs : List Char) :
    (number pos cs).taken ++ (number pos cs).rest = cs := by
  have hw := Decimal.digits_append_afterDigits cs
  have hf := fraction_append (Decimal.afterDigits cs)
  have hp := power_append (fraction (Decimal.afterDigits cs)).rest
  have hr := List.takeWhile_append_dropWhile
    (p := joinsNumber) (l := (power (fraction (Decimal.afterDigits cs)).rest).rest)
  unfold number
  dsimp only
  split
  · simp [invalidNumber, hf, hw]
  · split
    · simp [invalidNumber, hp, hf, hw]
    · split
      · simp [invalidNumber, hr, hp, hf, hw]
      · split <;> simp [invalidNumber, hp, hf, hw]

theorem doubled_append (pos : Nat) (op : BinaryOp) (c : Char) (cs : List Char) :
    (doubled pos op c cs).taken ++ (doubled pos op c cs).rest = c :: cs := by
  unfold doubled
  split
  · rfl
  · split <;> rfl

theorem maybeEquals_append (alone : Token) (withEquals : BinaryOp) (c : Char) (cs : List Char) :
    (maybeEquals alone withEquals c cs).taken ++ (maybeEquals alone withEquals c cs).rest =
      c :: cs := by
  unfold maybeEquals
  split <;> rfl

theorem string_append (pos : Nat) (cs : List Char) :
    (string pos cs).taken ++ (string pos cs).rest = '"' :: cs := by
  unfold string
  split
  · next h => simp [quoted?_append h]
  · simp

/-- What a scan takes and what it leaves make up the text. -/
theorem taken_append_rest_scan (pos : Nat) (cs : List Char) :
    (scan pos cs).taken ++ (scan pos cs).rest = cs := by
  unfold scan
  split
  · rfl
  · rfl
  · rfl
  · exact doubled_append ..
  · exact doubled_append ..
  · exact doubled_append ..
  · exact maybeEquals_append ..
  · exact maybeEquals_append ..
  · exact maybeEquals_append ..
  · exact string_append ..
  · split
    · exact number_append ..
    · split
      · exact List.takeWhile_append_dropWhile
      · rfl

/-! ### A scan takes something -/

theorem taken_doubled_ne_nil (pos : Nat) (op : BinaryOp) (c : Char) (cs : List Char) :
    (doubled pos op c cs).taken ≠ [] := by
  unfold doubled
  split
  · simp
  · split <;> simp

theorem taken_maybeEquals_ne_nil (alone : Token) (withEquals : BinaryOp) (c : Char)
    (cs : List Char) : (maybeEquals alone withEquals c cs).taken ≠ [] := by
  unfold maybeEquals
  split <;> simp

theorem taken_string_ne_nil (pos : Nat) (cs : List Char) : (string pos cs).taken ≠ [] := by
  unfold string
  split <;> simp

theorem taken_number_ne_nil (pos : Nat) {c : Char} (cs : List Char) (h : c.isDigit = true) :
    (number pos (c :: cs)).taken ≠ [] := by
  have hd : Decimal.digits (c :: cs) = c :: Decimal.digits cs := by
    simp [Decimal.digits, h]
  unfold number
  dsimp only
  rw [hd]
  split
  · simp [invalidNumber]
  · split
    · simp [invalidNumber]
    · split
      · simp [invalidNumber]
      · split <;> simp [invalidNumber]

theorem isWordChar_of_startsName {c : Char} (h : startsName c = true) :
    Text.isWordChar c = true := by
  rw [startsName, Bool.or_eq_true] at h
  rcases h with h | h
  · exact Text.isWordChar_of_isLetter h
  · simp [Text.isWordChar, h]

theorem taken_word_ne_nil {c : Char} (cs : List Char) (h : startsName c = true) :
    (word (c :: cs)).taken ≠ [] := by
  simp [word, isWordChar_of_startsName h]

/-- A scan of a text that is not empty takes at least one character. -/
theorem taken_scan_ne_nil (pos : Nat) (c : Char) (cs : List Char) :
    (scan pos (c :: cs)).taken ≠ [] := by
  unfold scan
  split
  · contradiction
  · simp [single]
  · simp [single]
  · exact taken_doubled_ne_nil _ _ _ _
  · exact taken_doubled_ne_nil _ _ _ _
  · exact taken_doubled_ne_nil _ _ _ _
  · exact taken_maybeEquals_ne_nil _ _ _ _
  · exact taken_maybeEquals_ne_nil _ _ _ _
  · exact taken_maybeEquals_ne_nil _ _ _ _
  · exact taken_string_ne_nil _ _
  · split
    · next h => exact taken_number_ne_nil pos _ h
    · split
      · next h => exact taken_word_ne_nil _ h
      · simp

/-- A scan of a text that is not empty leaves a shorter text. -/
theorem length_rest_scan_lt (pos : Nat) (c : Char) (cs : List Char) :
    (scan pos (c :: cs)).rest.length < (c :: cs).length := by
  have h := congrArg List.length (taken_append_rest_scan pos (c :: cs))
  have := List.length_pos_iff.2 (taken_scan_ne_nil pos c cs)
  rw [List.length_append] at h
  omega

end Scan

end Dialogue
