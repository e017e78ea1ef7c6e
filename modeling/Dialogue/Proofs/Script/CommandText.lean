import Dialogue.Proofs.Script.Printable
import Dialogue.Script.Draft

/-!
# Commands are read as they were written

The text of a command that can be written is read as the command (`Command.ofText_render`). It is
taken for no other command line: neither for an opener nor for one of the words that turn and close
branches.
-/

namespace Dialogue

variable {numeral : Float → List Char}

/-! ## Values -/

/-- A text that starts with another character than a word is not the word, in any case. -/
theorem sameIgnoringCase_cons_eq_false {a b : Char} {as bs : List Char}
    (h : a.toLower ≠ b.toLower) : Text.sameIgnoringCase (a :: as) (b :: bs) = false := by
  simp [Text.sameIgnoringCase, h]

/-- Blanks at the ends make no difference to the value of a text. -/
theorem Value.ofText_congr {cs ds : List Char} (h : Text.trim cs = Text.trim ds) :
    Value.ofText cs = Value.ofText ds := by
  rw [Value.ofText, Value.ofText, h]

/-- A quoted text is a string, whatever stands between the quotes. -/
theorem Value.ofText_quoted (s : List Char) :
    Value.ofText ('"' :: (s ++ ['"'])) = .string (String.ofList s) := by
  have htrimmed : Text.Trimmed ('"' :: (s ++ ['"'])) :=
    Text.trimmed_of_ends (by decide) (by decide)
  simp [Value.ofText, htrimmed.eq, sameIgnoringCase_cons_eq_false]

/-- A numeral is the number that it denotes, and text if there is no such number. -/
theorem Value.ofText_of_numeral {cs : List Char} {d : Decimal} (h : Decimal.ofText? cs = some d) :
    Value.ofText cs =
      if d.toFloat.isFinite then .number d.toFloat else .string (String.ofList cs) := by
  have htrim := (Decimal.trimmed_of_ofText? h).eq
  have hread := Decimal.readNumber?_of_ofText? h
  cases cs with
  | nil => cases h
  | cons c cs =>
    have hc : Decimal.isNumeralChar c = true :=
      Decimal.isNumeralChar_of_ofText? h c List.mem_cons_self
    obtain ⟨ht, hf⟩ := Decimal.toLower_of_isNumeralChar hc
    have hquote : c ≠ '"' := by
      rintro rfl
      cases hc
    have htrue : Text.sameIgnoringCase (c :: cs) ['t', 'r', 'u', 'e'] = false :=
      sameIgnoringCase_cons_eq_false ht
    have hfalse : Text.sameIgnoringCase (c :: cs) ['f', 'a', 'l', 's', 'e'] = false :=
      sameIgnoringCase_cons_eq_false hf
    simp only [Value.ofText, htrim, htrue, hfalse, hread]
    cases d.toFloat.isFinite <;> simp [hquote]

theorem Value.ofText_of_denotes {cs : List Char} {x : Float} (h : Denotes cs x) :
    Value.ofText cs = .number x := by
  obtain ⟨d, hd, rfl⟩ := Option.map_eq_some_iff.1 h.reads
  rw [Value.ofText_of_numeral hd, if_pos h.finite]

/-- The value behind the equals sign is read as it was written. -/
theorem Value.ofText_setText {v : Value} (h : v.Printable numeral) :
    Value.ofText (' ' :: v.setText numeral) = v := by
  rw [Value.ofText_congr (Text.trim_space_cons _)]
  cases v with
  | bool b => cases b <;> rfl
  | number x => exact Value.ofText_of_denotes h
  | string s => exact (Value.ofText_quoted s.toList).trans (by rw [String.ofList_toList])
  | null => exact h.elim

/-! ## Commands -/

theorem Value.trimmed_setText {v : Value} (h : v.Printable numeral) :
    Text.Trimmed (v.setText numeral) ∧ v.setText numeral ≠ [] := by
  cases v with
  | bool b => cases b <;> exact ⟨rfl, List.cons_ne_nil _ _⟩
  | number x => exact ⟨Denotes.trimmed h, Denotes.ne_nil h⟩
  | string s => exact ⟨Text.trimmed_of_ends (by decide) (by decide), List.cons_ne_nil _ _⟩
  | null => exact h.elim

theorem Command.trimmed_render {c : Command} (h : c.Printable numeral) :
    Text.Trimmed (c.render numeral) := by
  cases c with
  | jump target => exact h.1.trimmed.append h.2 (by decide)
  | set name v =>
    obtain ⟨ht, hne⟩ := Value.trimmed_setText h.2.2.2
    exact ht.append hne (by decide)

/-- The first word of a text stands in front of its first blank. -/
theorem Command.ofText_of_word (word : List Char) {tail : List Char}
    (hword : word.all (fun c => !Text.isBlank c) = true)
    (htrim : Text.Trimmed (word ++ ' ' :: tail)) :
    Command.ofText (word ++ ' ' :: tail) =
      if Text.sameIgnoringCase word ['j', 'u', 'm', 'p'] then readJump tail
      else if Text.sameIgnoringCase word ['s', 'e', 't'] then readSet (word ++ ' ' :: tail) tail
      else .error (.unknownCommand (String.ofList word)) := by
  have hword' := List.all_eq_true.1 hword
  have hblank : (!Text.isBlank ' ') = false := by decide
  simp only [Command.ofText, htrim.eq, Text.takeWhile_append_cons hword' hblank,
    Text.dropWhile_append_cons hword' hblank, List.tail_cons]

theorem Command.readJump_of_plain {target : String} (h : Text.Plain target.toList)
    (hne : target.toList ≠ []) : readJump target.toList = .ok (.jump target) := by
  simp [readJump, h.trimmed.eq, hne]

theorem Command.readSet_of_trimmed {name : String} {body value : List Char}
    (h : Text.Trimmed name.toList) (hne : name.toList ≠ []) (hequals : '=' ∉ name.toList) :
    readSet body (name.toList ++ ' ' :: '=' :: value) = .ok (.set name (Value.ofText value)) := by
  have hfront : '=' ∉ name.toList ++ [' '] := by simpa using hequals
  have hsplit : name.toList ++ ' ' :: '=' :: value = (name.toList ++ [' ']) ++ '=' :: value := by
    simp
  have htrim : Text.trim (name.toList ++ [' ']) = name.toList := by
    rw [Text.trim_append_space]
    exact h
  rw [hsplit]
  simp [-List.append_assoc, readSet, Text.takeWhile_bne_append_cons hfront,
    Text.dropWhile_bne_append_cons hfront, htrim, hne]

/-- **Commands.** The text of a command is read as the command. -/
theorem Command.ofText_render {c : Command} (h : c.Printable numeral) :
    Command.ofText (c.render numeral) = .ok c := by
  have htrim := Command.trimmed_render h
  cases c with
  | jump target =>
    refine (Command.ofText_of_word ['j', 'u', 'm', 'p'] (by decide) htrim).trans ?_
    exact Command.readJump_of_plain h.1 h.2
  | set name v =>
    obtain ⟨hplain, hne, hequals, hv⟩ := h
    have hrender : (Command.set name v).render numeral =
        ['s', 'e', 't'] ++ ' ' :: (name.toList ++ ' ' :: '=' :: ' ' :: v.setText numeral) := by
      simp
    rw [hrender] at htrim ⊢
    refine (Command.ofText_of_word _ (by decide) htrim).trans ?_
    refine (Command.readSet_of_trimmed hplain.trimmed hne hequals).trans ?_
    rw [Value.ofText_setText hv]

/-! ## Command lines -/

theorem trimmed_commandLine (body : List Char) : Text.Trimmed (commandLine body) := by
  have hends : commandLine body = '<' :: ('<' :: body ++ ['>']) ++ ['>'] := by simp [commandLine]
  rw [hends]
  exact Text.trimmed_of_ends (by decide) (by decide)

/-- A command line, indented or not, holds the text between its brackets. -/
theorem commandBody?_of_trim {line body : List Char} (h : Text.trim line = commandLine body) :
    commandBody? line = some (Text.trim body) := by
  simp [commandBody?, h, commandLine]

/-- The text of a command is none of the words that turn and close branches. -/
theorem Command.isElse_render (c : Command) : isElse (c.render numeral) = false := by
  cases c <;> simp [isElse, sameIgnoringCase_cons_eq_false]

theorem Command.isEndif_render (c : Command) : isEndif (c.render numeral) = false := by
  cases c <;> simp [isEndif, sameIgnoringCase_cons_eq_false]

/-- The text of a command opens no branch. -/
theorem Command.ifCondition?_render (c : Command) : ifCondition? (c.render numeral) = none := by
  cases c <;> simp [ifCondition?, sameIgnoringCase_cons_eq_false]

/-- The text of an opener holds its condition, which may be empty. -/
theorem ifCondition?_opener {condition : List Char} (h : Text.Trimmed condition) :
    ifCondition? (Text.trim ("if ".toList ++ condition)) = some condition := by
  by_cases hne : condition = []
  · subst hne
    rfl
  · have hopener : Text.Trimmed ('i' :: ['f', ' '] ++ condition) := h.append hne (by decide)
    have hword : Text.isWordChar ' ' = false := by decide
    rw [show Text.trim ("if ".toList ++ condition) = 'i' :: 'f' :: ' ' :: condition from hopener]
    simp [ifCondition?, hword, h.trim_space_cons]

/-- An opener starts with the first letter of its word, unlike the words that turn and close
branches. -/
theorem trim_opener (condition : List Char) :
    Text.trim ("if ".toList ++ condition) = 'i' :: Text.trimEnd ('f' :: ' ' :: condition) :=
  Text.trim_cons (by decide)

theorem isElse_opener (condition : List Char) :
    isElse (Text.trim ("if ".toList ++ condition)) = false := by
  rw [trim_opener]
  exact sameIgnoringCase_cons_eq_false (by decide)

theorem isEndif_opener (condition : List Char) :
    isEndif (Text.trim ("if ".toList ++ condition)) = false := by
  rw [trim_opener]
  exact sameIgnoringCase_cons_eq_false (by decide)

end Dialogue
