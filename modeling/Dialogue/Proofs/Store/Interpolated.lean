import Dialogue.Interpolation
import Dialogue.Proofs.Condition.Spelling
import Dialogue.Proofs.Text.Trimmed
import Mathlib.Data.List.Infix

/-!
# Names in braces

The pass over a text replaces the names in braces and nothing else. A text without such a name is
left as it is (`Interpolation.expand_eq_self`), and a name in braces is replaced whatever stands
around it (`Store.interpolate_braced`).

Two facts carry this. What is found behind an opening brace is a name with a closing brace behind it
(`token?_eq_some_iff`). And nothing that starts in front of an opening brace reaches beyond it,
since no name holds a brace, so a text can be cut there (`expand_append_brace`). A brace that was
opened before and never closed does not matter.
-/

namespace Dialogue

namespace Interpolation

/-- A name that can stand in braces: a letter, and word characters behind it. -/
inductive IsName : List Char → Prop
  | mk {c : Char} {cs : List Char} : Text.isLetter c = true →
      (∀ d ∈ cs, Text.isWordChar d = true) → IsName (c :: cs)

/-- A name in braces. -/
def braced (name : List Char) : List Char := '{' :: name ++ ['}']

/-- A name that can stand in braces is a word. -/
theorem IsName.word {name : List Char} (h : IsName name) : Spelling.Word name := by
  obtain ⟨hc, hcs⟩ := h
  exact .mk (.inl hc) hcs

/-- No name holds a brace. -/
theorem IsName.not_brace {name : List Char} (h : IsName name) : '{' ∉ name := fun hmem =>
  absurd (h.word.isWordChar _ hmem) (by decide)

/-! ## Behind an opening brace -/

section Token

variable {cs name after : List Char}

/-- What is found behind an opening brace is a name with a closing brace behind it. -/
theorem token?_eq_some_iff :
    token? cs = some (name, after) ↔ IsName name ∧ cs = name ++ '}' :: after := by
  constructor
  · intro h
    cases cs with
    | nil => cases h
    | cons c cs =>
      rw [token?] at h
      split at h
      · next hc =>
        split at h
        · next hdrop =>
          cases h
          refine ⟨.mk hc fun d hd => List.mem_takeWhile_imp hd, ?_⟩
          rw [List.cons_append, ← hdrop, List.takeWhile_append_dropWhile]
        · cases h
      · cases h
  · rintro ⟨⟨hc, hcs⟩, rfl⟩
    have hclose : Text.isWordChar '}' = false := by decide
    rw [List.cons_append, token?, if_pos hc, Text.dropWhile_append_cons hcs hclose,
      Text.takeWhile_append_cons hcs hclose]
    rfl

/-- Another opening brace ends the search: what is found is found in front of it. -/
theorem token?_append_brace (cs rest : List Char) :
    token? (cs ++ '{' :: rest) =
      (token? cs).map fun found => (found.1, found.2 ++ '{' :: rest) := by
  cases hcs : token? cs with
  | some found =>
    obtain ⟨name, after⟩ := found
    obtain ⟨hname, rfl⟩ := token?_eq_some_iff.mp hcs
    exact token?_eq_some_iff.mpr ⟨hname, by simp⟩
  | none =>
    rw [Option.map_none, Option.eq_none_iff_forall_ne_some]
    rintro ⟨name, after⟩ hfound
    obtain ⟨hname, heq⟩ := token?_eq_some_iff.mp hfound
    have hshort : ∀ more, cs ≠ (name ++ ['}']) ++ more := by
      rintro more rfl
      have hsome : token? ((name ++ ['}']) ++ more) = some (name, more) :=
        token?_eq_some_iff.mpr ⟨hname, by simp⟩
      rw [hsome] at hcs
      cases hcs
    have hsplit : cs ++ '{' :: rest = (name ++ ['}']) ++ after := by simpa using heq
    rcases List.append_eq_append_iff.mp hsplit with ⟨front, hfront, hback⟩ | ⟨more, hmore, -⟩
    · cases front with
      | nil => exact hshort [] (by simpa using hfront.symm)
      | cons c front =>
        -- The opening brace would stand inside of the name.
        obtain ⟨rfl, -⟩ := List.cons_eq_cons.mp hback
        have hmem : '{' ∈ name ++ ['}'] := by
          rw [hfront]
          exact List.mem_append_right _ List.mem_cons_self
        exact hname.not_brace (by simpa using hmem)
    · exact hshort more hmore

end Token

/-! ## The pass -/

section Expand

variable {s : Store} {c : Char} {cs name after : List Char}

@[simp] theorem expand_nil : expand s [] = [] := by rw [expand]

theorem expand_cons_of_ne (hc : c ≠ '{') (cs : List Char) :
    expand s (c :: cs) = c :: expand s cs := by
  rw [expand, if_neg hc]

theorem expand_brace_of_none (h : token? cs = none) :
    expand s ('{' :: cs) = '{' :: expand s cs := by
  rw [expand, if_pos rfl]
  split
  · next hsome =>
    rw [h] at hsome
    cases hsome
  · rfl

theorem expand_brace_of_some (h : token? cs = some (name, after)) :
    expand s ('{' :: cs) = replacement s name ++ expand s after := by
  rw [expand, if_pos rfl]
  split
  · next hsome =>
    rw [h] at hsome
    cases hsome
    rfl
  · next hnone =>
    rw [h] at hnone
    cases hnone

/-- **A text can be cut in front of an opening brace.** -/
theorem expand_append_brace (s : Store) (cs rest : List Char) :
    expand s (cs ++ '{' :: rest) = expand s cs ++ expand s ('{' :: rest) := by
  fun_induction expand s cs with
  | case1 => rfl
  | case2 cs name after htoken ih =>
    have hfound : token? (cs ++ '{' :: rest) = some (name, after ++ '{' :: rest) := by
      rw [token?_append_brace, htoken, Option.map_some]
    rw [List.cons_append, expand_brace_of_some hfound, ih, List.append_assoc]
  | case3 cs htoken ih =>
    have hnone : token? (cs ++ '{' :: rest) = none := by
      rw [token?_append_brace, htoken, Option.map_none]
    rw [List.cons_append, expand_brace_of_none hnone, ih, List.cons_append]
  | case4 c cs hc ih => rw [List.cons_append, expand_cons_of_ne hc, ih, List.cons_append]

/-- A name in braces is replaced. -/
theorem expand_braced_append (h : IsName name) (s : Store) (rest : List Char) :
    expand s (braced name ++ rest) = replacement s name ++ expand s rest := by
  have htoken : token? (name ++ '}' :: rest) = some (name, rest) := token?_eq_some_iff.mpr ⟨h, rfl⟩
  have htext : braced name ++ rest = '{' :: (name ++ '}' :: rest) := by simp [braced]
  rw [htext, expand_brace_of_some htoken]

/-- **A text without names in braces is left as it is.** -/
theorem expand_eq_self (h : ∀ name, IsName name → ¬ braced name <:+: cs) : expand s cs = cs := by
  have htail : ∀ {c cs}, (∀ name, IsName name → ¬ braced name <:+: c :: cs) →
      ∀ name, IsName name → ¬ braced name <:+: cs :=
    fun h name hname hpart => h name hname (hpart.trans (List.suffix_cons _ _).isInfix)
  fun_induction expand s cs with
  | case1 => rfl
  | case2 cs name after htoken _ =>
    obtain ⟨hname, rfl⟩ := token?_eq_some_iff.mp htoken
    exact absurd ⟨[], after, by simp [braced]⟩ (h name hname)
  | case3 cs _ ih => rw [ih (htail h)]
  | case4 c cs _ ih => rw [ih (htail h)]

end Expand

end Interpolation

/-! ## Texts -/

open Interpolation

/-- A name in braces. -/
def inBraces (name : String) : String := "\x7b" ++ name ++ "\x7d"

theorem toList_inBraces (name : String) : (inBraces name).toList = braced name.toList := by
  simp [inBraces, braced]

namespace Store

variable {s : Store} {name : String} {v : Value}

/-- The text of the value stands for a name in braces. -/
theorem replacement_of_get? (h : s.get? name = some v) (hv : v ≠ .null) :
    replacement s name.toList = v.text.toList := by
  have hnull : v.isNull = false := by
    cases v with
    | null => exact absurd rfl hv
    | _ => rfl
  simp only [replacement, read, String.ofList_toList, h, Option.getD_some, hnull,
    Bool.false_eq_true, if_false]

/-- Without a value a name in braces stands for itself. -/
theorem replacement_of_read_eq_null (h : s.read name = .null) :
    replacement s name.toList = (inBraces name).toList := by
  rw [toList_inBraces, replacement, String.ofList_toList, h]
  rfl

theorem interpolate_append_inBraces (h : IsName name.toList) (s : Store) (a b : String) :
    s.interpolate (a ++ inBraces name ++ b) =
      s.interpolate a ++ String.ofList (replacement s name.toList) ++ s.interpolate b := by
  have htext : (a ++ inBraces name ++ b).toList =
      a.toList ++ '{' :: (name.toList ++ '}' :: b.toList) := by
    simp [toList_inBraces, braced]
  have hbraced : '{' :: (name.toList ++ '}' :: b.toList) = braced name.toList ++ b.toList := by
    simp [braced]
  rw [interpolate, htext, expand_append_brace, hbraced, expand_braced_append h]
  simp only [interpolate, String.ofList_append, String.append_assoc]

/-- **Names in braces are replaced, and nothing else.** A text without a name in braces is left as
it is. A name in braces is replaced by the text of its value, or left as it is if there is none,
whatever stands in front of it and behind it; and these are treated as if they stood alone. -/
theorem interpolate_braced (s : Store) :
    (∀ text : String,
      (∀ name : String, IsName name.toList → ¬ (inBraces name).toList <:+: text.toList) →
      s.interpolate text = text) ∧
    ∀ a b name : String, IsName name.toList →
      (∀ v, s.get? name = some v → v ≠ .null →
        s.interpolate (a ++ inBraces name ++ b) = s.interpolate a ++ v.text ++ s.interpolate b) ∧
      (s.get? name = none ∨ s.get? name = some .null →
        s.interpolate (a ++ inBraces name ++ b) =
          s.interpolate a ++ inBraces name ++ s.interpolate b) := by
  refine ⟨fun text hnone => ?_, fun a b name hname => ⟨fun v hv hnull => ?_, fun habsent => ?_⟩⟩
  · have hlist : ∀ name, IsName name → ¬ braced name <:+: text.toList := by
      intro name hname
      have hstring := hnone (String.ofList name)
      rw [toList_inBraces, String.toList_ofList] at hstring
      exact hstring hname
    rw [interpolate, expand_eq_self hlist, String.ofList_toList]
  · rw [interpolate_append_inBraces hname, replacement_of_get? hv hnull, String.ofList_toList]
  · have hread : s.read name = .null := by
      rcases habsent with h | h <;> rw [read, h] <;> rfl
    rw [interpolate_append_inBraces hname, replacement_of_read_eq_null hread, String.ofList_toList]

/-- In front of a name an unclosed brace and the beginning of another name, behind it a stray brace;
and a text in which no brace is closed. -/
theorem interpolate_braced_stray :
    let s := Store.empty.set "gold" (.string "\x7bgold\x7d")
    s.interpolate "Dear \x7bfriend" = "Dear \x7bfriend" ∧
      s.interpolate ("\x7b\x7bgo" ++ inBraces "Gold" ++ "ld\x7d") =
        s.interpolate "\x7b\x7bgo" ++ "\x7bgold\x7d" ++ s.interpolate "ld\x7d" ∧
      s.interpolate ("" ++ inBraces "silver" ++ "") =
        s.interpolate "" ++ inBraces "silver" ++ s.interpolate "" := by
  intro s
  have hclosed : ∀ name : String, IsName name.toList →
      ¬ (inBraces name).toList <:+: "Dear \x7bfriend".toList := by
    intro name _ hpart
    have hmem : '}' ∈ (inBraces name).toList := by simp [toList_inBraces, braced]
    exact absurd (hpart.subset hmem) (by decide)
  have hgold : IsName "Gold".toList := .mk (by decide) (List.all_eq_true.mp (by decide))
  have hsilver : IsName "silver".toList := .mk (by decide) (List.all_eq_true.mp (by decide))
  exact ⟨(interpolate_braced s).1 _ hclosed,
    ((interpolate_braced s).2 _ _ _ hgold).1 (.string "\x7bgold\x7d") (by decide +kernel) (by simp),
    ((interpolate_braced s).2 _ _ _ hsilver).2 (.inl (by decide +kernel))⟩

end Store

end Dialogue
