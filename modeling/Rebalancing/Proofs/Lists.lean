import Mathlib.Data.List.Basic

/-!
# Lists of records

Of the records with one key the last one counts, or they act on each other while those with
different keys do not.  So the order matters only among the items of each key, and two lists count
as rearranged if for each key their items are the same, in the same order.
-/

namespace List

variable {α β κ : Type} [DecidableEq κ] {step : β → α → β}

/-- An item takes the place of those in front of it. -/
theorem getLast?_filter_concat (p : α → Bool) (list : List α) (a : α) :
    ((list ++ [a]).filter p).getLast? = if p a then some a else (list.filter p).getLast? := by
  rw [filter_append]
  cases h : p a with
  | true => simp [h]
  | false => simp [h]

/-- A step that commutes with the others can be made first. -/
theorem foldl_step_comm {a : α} {list : List α} (state : β)
    (comm : ∀ b ∈ list, ∀ state, step (step state b) a = step (step state a) b) :
    step (list.foldl step state) a = list.foldl step (step state a) := by
  induction list generalizing state with
  | nil => rfl
  | cons b rest ih =>
    rw [foldl_cons, foldl_cons, ih _ fun c mem => comm c (mem_cons_of_mem b mem),
      comm b mem_cons_self]

/-- If steps with different keys commute, it is enough that the steps of each key come in order. -/
theorem foldl_eq_of_filter_eq (key : α → κ)
    (comm : ∀ a b, key a ≠ key b → ∀ state, step (step state b) a = step (step state a) b)
    {list list' : List α} (same : ∀ k, list.filter (key · = k) = list'.filter (key · = k))
    (state : β) : list.foldl step state = list'.foldl step state := by
  induction list generalizing list' state with
  | nil =>
    have none : list' = [] := by
      refine eq_nil_iff_forall_not_mem.mpr fun a mem => ?_
      have mem : a ∈ list'.filter (key · = key a) := mem_filter.mpr ⟨mem, decide_eq_true rfl⟩
      rw [← same] at mem
      cases mem
    rw [none]
  | cons a rest ih =>
    -- the other list has the same first step for the key of `a`, behind steps for other keys
    have first : list'.filter (key · = key a) = a :: rest.filter (key · = key a) := by
      rw [← same, filter_cons_of_pos (p := (key · = key a)) (decide_eq_true rfl)]
    obtain ⟨before, behind, rfl, others, -, hbehind⟩ := filter_eq_cons_iff.mp first
    have others : ∀ b ∈ before, key b ≠ key a := fun b mem => by simpa using others b mem
    have hrest : ∀ k, rest.filter (key · = k) = (before ++ behind).filter (key · = k) := by
      intro k
      rw [filter_append]
      by_cases hk : key a = k
      · have none : before.filter (key · = k) = [] :=
          filter_eq_nil_iff.mpr fun b mem => by simpa [← hk] using others b mem
        rw [none, nil_append, ← hk, hbehind]
      · have h := same k
        rwa [filter_append, filter_cons_of_neg (by simpa using hk),
          filter_cons_of_neg (by simpa using hk)] at h
    rw [foldl_cons, ih hrest, foldl_append, foldl_append, foldl_cons,
      foldl_step_comm state fun b mem => comm a b (others b mem).symm]

/-- Neighbours with different keys may change places without a key's items doing so. -/
theorem filter_swap (key : α → κ) {a b : α} (ne : key a ≠ key b) (before behind : List α) (k : κ) :
    (before ++ a :: b :: behind).filter (key · = k) =
      (before ++ b :: a :: behind).filter (key · = k) := by
  simp only [filter_append, filter_cons, decide_eq_true_eq]
  by_cases h : key a = k
  · have h' : key b ≠ k := fun h' => ne (h.trans h'.symm)
    simp only [h, h', if_true, if_false]
  · simp only [h, if_false]

end List
