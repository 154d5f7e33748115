/-! Splitting a list at its separators. -/
namespace CalcBasic.Groups

/-- The items before the first separator, and the groups after it. -/
def cut {α : Type} (separates : α → Bool) : List α → List α × List (List α)
  | [] => ([], [])
  | item :: rest =>
    let (first, others) := cut separates rest
    if separates item then ([], first :: others) else (item :: first, others)

/-- The groups between separators. Separators are dropped, so there is one
group more than there are separators. -/
def split {α : Type} (separates : α → Bool) (items : List α) : List (List α) :=
  let (first, others) := cut separates items
  first :: others

theorem length_split {α : Type} (separates : α → Bool) (items : List α) :
    (split separates items).length = items.countP separates + 1 := by
  induction items with
  | nil => rfl
  | cons item rest ih =>
    simp only [split, List.length_cons] at ih
    by_cases found : separates item <;> simp [split, cut, found] <;> omega

theorem length_le_of_mem_split {α : Type} {separates : α → Bool} {items group : List α}
    (isGroup : group ∈ split separates items) : group.length ≤ items.length := by
  induction items generalizing group with
  | nil => simp [split, cut] at isGroup; simp [isGroup]
  | cons head rest ih =>
    simp only [split, cut] at isGroup ih
    by_cases found : separates head
    · simp only [found, if_true, List.mem_cons] at isGroup
      rcases isGroup with rfl | isGroup
      · simp
      · exact Nat.le_succ_of_le (ih (by simpa using isGroup))
    · simp only [found, Bool.false_eq_true, if_false, List.mem_cons] at isGroup
      rcases isGroup with rfl | isGroup
      · exact Nat.succ_le_succ (ih (by simp))
      · exact Nat.le_succ_of_le (ih (by simp [isGroup]))

end CalcBasic.Groups
