import Rebalancing.Text.Split

/-!
# What a text is split into

Pieces that are put together again, with the separator between them, give the text.
-/

namespace Rebalancing.Text

variable {sep : Char} {text : List Char}

theorem splitOn_eq (sep : Char) (text : List Char) : splitOn sep text = text.splitOn sep := by
  induction text with
  | nil => rfl
  | cons c rest ih =>
    rw [splitOn, ih, List.splitOn_cons_eq_if_modifyHead]
    by_cases same : c = sep
    · rw [if_pos same, if_pos (beq_iff_eq.mpr same)]
    · rw [if_neg same, if_neg (mt beq_iff_eq.mp same)]
      cases h : rest.splitOn sep with
      | nil => exact absurd h (List.splitOn_ne_nil sep rest)
      | cons piece pieces => rfl

theorem intercalate_splitOn (sep : Char) (text : List Char) :
    [sep].intercalate (splitOn sep text) = text := by
  rw [splitOn_eq, List.intercalate_splitOn]

/-- The two parts of a text that is split at its first separator. -/
theorem eq_of_splitOnce {before after : List Char} (h : splitOnce sep text = some (before, after)) :
    text = before ++ sep :: after ∧ sep ∉ before := by
  induction text generalizing before with
  | nil => cases h
  | cons c rest ih =>
    rw [splitOnce] at h
    split at h
    case isTrue same =>
      cases h
      exact ⟨congrArg (· :: after) same, List.not_mem_nil⟩
    case isFalse other =>
      obtain ⟨⟨before', after'⟩, hrest, heq⟩ := Option.map_eq_some_iff.mp h
      cases heq
      obtain ⟨rfl, fresh⟩ := ih hrest
      exact ⟨rfl, List.not_mem_cons_of_ne_of_not_mem (Ne.symm other) fresh⟩

end Rebalancing.Text
