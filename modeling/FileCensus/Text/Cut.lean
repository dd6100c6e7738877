/-!
# Cutting at a separator

The pieces of a list between the occurrences of a separator, empty pieces included.
-/

namespace FileCensus

def cutAt {α : Type} [DecidableEq α] (sep : α) : List α → List (List α)
  | [] => [[]]
  | c :: rest =>
    if c = sep then [] :: cutAt sep rest
    else
      match cutAt sep rest with
      | [] => [[c]]
      | piece :: pieces => (c :: piece) :: pieces

theorem cutAt_ne_nil {α : Type} [DecidableEq α] (sep : α) (s : List α) : cutAt sep s ≠ [] := by
  unfold cutAt
  split
  · simp
  · split
    · simp
    · split <;> simp

/-- The pieces joined by the separator are the list again. -/
theorem intercalate_cutAt {α : Type} [DecidableEq α] (sep : α) (s : List α) :
    [sep].intercalate (cutAt sep s) = s := by
  induction s with
  | nil => rfl
  | cons c rest ih =>
    simp only [cutAt]
    generalize hp : cutAt sep rest = pieces at ih
    split
    · rename_i h
      subst h
      match pieces, cutAt_ne_nil c rest with
      | [], ne => exact absurd hp ne
      | _ :: _, _ => simp [← ih]
    · match pieces with
      | [] => simp_all [cutAt_ne_nil]
      | [_] => simp [← ih]
      | _ :: _ :: _ => simp [← ih]

/-- A separator that stands in a list cuts it at least there. -/
theorem cutAt_append_cons {α : Type} [DecidableEq α] (sep : α) (s rest : List α) :
    cutAt sep (s ++ sep :: rest) = cutAt sep s ++ cutAt sep rest := by
  induction s with
  | nil => simp [cutAt]
  | cons c s ih =>
    simp only [List.cons_append, cutAt, ih]
    split
    · rfl
    · cases hcut : cutAt sep s with
      | nil => exact absurd hcut (cutAt_ne_nil sep s)
      | cons piece pieces => rfl

theorem cutAt_of_not_mem {α : Type} [DecidableEq α] {sep : α} {s : List α} (h : sep ∉ s) :
    cutAt sep s = [s] := by
  induction s with
  | nil => rfl
  | cons c s ih =>
    obtain ⟨hc, hs⟩ : sep ≠ c ∧ sep ∉ s := by simpa using h
    rw [cutAt, if_neg (Ne.symm hc), ih hs]

theorem cutAt_append {α : Type} [DecidableEq α] {sep : α} {s : List α} (h : sep ∉ s) (rest : List α) :
    cutAt sep (s ++ sep :: rest) = s :: cutAt sep rest := by
  rw [cutAt_append_cons, cutAt_of_not_mem h, List.singleton_append]

theorem not_mem_of_mem_cutAt {α : Type} [DecidableEq α] {sep : α} {s piece : List α}
    (h : piece ∈ cutAt sep s) : sep ∉ piece := by
  induction s generalizing piece with
  | nil =>
    rw [cutAt, List.mem_singleton] at h
    rw [h]
    exact List.not_mem_nil
  | cons c s ih =>
    rw [cutAt] at h
    split at h
    · rcases List.mem_cons.1 h with rfl | h
      · exact List.not_mem_nil
      · exact ih h
    · rename_i hc
      split at h
      · rename_i hcut
        exact absurd hcut (cutAt_ne_nil _ _)
      · rename_i first rest hcut
        rcases List.mem_cons.1 h with rfl | h
        · have hfirst := ih (hcut ▸ List.mem_cons_self)
          simpa [Ne.symm hc] using hfirst
        · exact ih (hcut ▸ List.mem_cons_of_mem _ h)

end FileCensus
