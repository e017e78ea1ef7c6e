import Dialogue.Proofs.Condition.Blanks
import Dialogue.Proofs.Script.CommandText
import Dialogue.Proofs.Store.Interpolated
import Dialogue.Runner.Scene

/-!
# Variables that a command sets

A command, a condition and a text between braces each read names in their own way, and a program may
ask for any name at all. They mean the same variable: what a command sets under a name is what a
condition reads under it, what is written for it in braces, and what every name with the same folded
form stands for (`Scene.reads_of_runsText_set`).

The command takes everything in front of the first equals sign for the name, without the blanks at
its ends. So a word is taken whole, as it holds neither (`Command.ofText_set`), and what stands
behind the equals sign does not matter to the name.
-/

namespace Dialogue

/-- No text has the value null. -/
theorem Value.ofText_ne_null (cs : List Char) : ofText cs ≠ .null := by
  intro h
  simp only [ofText] at h
  split at h
  · cases h
  · split at h
    · cases h
    · split at h
      · cases h
      · split at h <;> cases h

/-! ## Commands -/

/-- A word holds no equals sign. -/
theorem Spelling.Word.not_equals {cs : List Char} (h : Word cs) : '=' ∉ cs := fun hmem =>
  absurd (h.isWordChar _ hmem) (by decide)

/-- **The command that sets a variable.** The name is taken as it stands. -/
theorem Command.ofText_set {name : String} (htrim : Text.Trimmed name.toList)
    (hne : name.toList ≠ []) (hequals : '=' ∉ name.toList) (value : String) :
    Command.ofText ("set " ++ name ++ " = " ++ value).toList =
      .ok (.set name (Value.ofText value.toList)) := by
  -- What is left when the blanks at the ends are taken off starts with the command word.
  have hbody : Text.trim ("set " ++ name ++ " = " ++ value).toList =
      ['s', 'e', 't'] ++
        ' ' :: (name.toList ++ ' ' :: '=' :: Text.trimEnd (' ' :: value.toList)) := by
    have htext : ("set " ++ name ++ " = " ++ value).toList =
        's' :: (['e', 't', ' '] ++ name.toList ++ [' '] ++ '=' :: ' ' :: value.toList) := by simp
    rw [htext, Text.trim_cons (by decide), Text.trimEnd_append_cons (by decide)]
    simp
  have htrimmed := Text.trim_trim ("set " ++ name ++ " = " ++ value).toList
  rw [hbody] at htrimmed
  have hvalue : Value.ofText (Text.trimEnd (' ' :: value.toList)) = Value.ofText value.toList :=
    Value.ofText_congr ((Text.trim_trimEnd _).trans (Text.trim_space_cons _))
  calc Command.ofText ("set " ++ name ++ " = " ++ value).toList
    _ = Command.ofText (Text.trim ("set " ++ name ++ " = " ++ value).toList) := by
      rw [Command.ofText, Command.ofText, Text.trim_trim]
    _ = readSet _ (name.toList ++ ' ' :: '=' :: Text.trimEnd (' ' :: value.toList)) := by
      rw [hbody]
      exact Command.ofText_of_word _ (by decide) htrimmed
    _ = .ok (.set name (Value.ofText value.toList)) := by
      rw [Command.readSet_of_trimmed htrim hne hequals, hvalue]

namespace Scene

/-- The text holds a command that takes the scene to another one, without a fault. -/
def RunsText (g : Graph) (s : Scene) (text : String) (s' : Scene) : Prop :=
  ∃ c, Command.ofText text.toList = .ok c ∧ (s.execute g c).fault = none ∧
    (s.execute g c).scene = s'

/-- The scene after a variable has been set. -/
def assign (s : Scene) (name : String) (v : Value) : Scene := { s with vars := s.vars.set name v }

theorem runsText_set {name : String} (h : Spells name.toList (.name name)) (g : Graph) (s : Scene)
    (value : String) :
    s.RunsText g ("set " ++ name ++ " = " ++ value)
      (s.assign name (Value.ofText value.toList)) := by
  have hword : Spelling.Word name.toList := by
    generalize hcs : name.toList = cs at h
    cases h with
    | name hword _ => exact hword
  exact ⟨_, Command.ofText_set h.trimmed h.ne_nil hword.not_equals value, rfl, rfl⟩

end Scene

/-! ## Readings -/

/-- A name for itself is read as the variable. -/
theorem Expr.ofText_of_name {name : String} (h : Spells name.toList (.name name)) :
    ofText name.toList = .ok (.variable name) :=
  ofText_of_written (.name h) (Nat.zero_le _)

/-- A name in braces for itself. -/
theorem Store.interpolate_inBraces {s : Store} {name : String} {v : Value}
    (hname : Interpolation.IsName name.toList) (h : s.get? name = some v) (hv : v ≠ .null) :
    s.interpolate (inBraces name) = v.text := by
  have hpass := interpolate_append_inBraces hname s "" ""
  rw [replacement_of_get? h hv] at hpass
  simpa [interpolate] using hpass

/-- **One name, one variable.** A command that sets a name to a text gives its variable the value of
the text. Then the name, as an expression, has this value; in braces it stands for the text of the
value; every name with the same folded form reads the value, and every other name what it read
before. -/
theorem Scene.reads_of_runsText_set {name : String} (hname : Interpolation.IsName name.toList)
    (hkey : ∀ k ∈ Spelling.keywords, Text.sameIgnoringCase name.toList k.1 = false) (g : Graph)
    (s : Scene) (value : String) :
    ∃ s', s.RunsText g ("set " ++ name ++ " = " ++ value) s' ∧
      (∃ e, Expr.ofText name.toList = .ok e ∧ e.eval s'.vars = .ok (Value.ofText value.toList)) ∧
      s'.vars.interpolate (inBraces name) = (Value.ofText value.toList).text ∧
      (∀ other, foldName other = foldName name →
        s'.vars.get? other = some (Value.ofText value.toList)) ∧
      ∀ other, foldName other ≠ foldName name → s'.vars.get? other = s.vars.get? other := by
  have hspells : Spells name.toList (.name name) := by
    have hspells := Spells.name hname.word hkey
    rwa [String.ofList_toList] at hspells
  have hsame : ∀ other, foldName other = foldName name →
      (s.assign name (Value.ofText value.toList)).vars.get? other =
        some (Value.ofText value.toList) :=
    fun other hother => (Store.get?_set ..).trans (if_pos hother)
  have heval : (Expr.variable name).eval (s.assign name (Value.ofText value.toList)).vars =
      .ok (Value.ofText value.toList) :=
    congrArg Except.ok ((Store.read_set ..).trans (if_pos rfl))
  exact ⟨_, runsText_set hspells g s value, ⟨_, Expr.ofText_of_name hspells, heval⟩,
    Store.interpolate_inBraces hname (hsame name rfl) (Value.ofText_ne_null _), hsame,
    fun other hother => (Store.get?_set ..).trans (if_neg hother)⟩

/-- A text with an equals sign of its own, under a name that is then asked for in capitals. -/
theorem Scene.reads_of_runsText_set_purse :
    ∃ s', initial.RunsText .empty ("set " ++ "Gold" ++ " = " ++ " a purse = full ") s' ∧
      s'.vars.interpolate (inBraces "Gold") = "a purse = full" ∧
      s'.vars.get? " GOLD " = some (.string "a purse = full") ∧ s'.vars.get? "silver" = none := by
  have hname : Interpolation.IsName "Gold".toList :=
    .mk (by decide) (List.all_eq_true.mp (by decide))
  obtain ⟨s', hruns, -, hshown, hsame, hother⟩ :=
    reads_of_runsText_set hname (by decide) .empty initial " a purse = full "
  have hvalue : Value.ofText " a purse = full ".toList = .string "a purse = full" := by
    decide +kernel
  rw [hvalue] at hshown hsame
  exact ⟨s', hruns, hshown, hsame _ (by decide +kernel), hother _ (by decide +kernel)⟩

end Dialogue
