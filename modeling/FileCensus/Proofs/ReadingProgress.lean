import FileCensus.Document.Reader
import FileCensus.Proofs.ElementTree

/-!
# The progress of a reading

What one element does to the progress depends on how many elements are open around it: elements two
deep or more do nothing, those one deep are entered one after the other, and only at the top does an
end complete the document.
-/

namespace FileCensus.Document

open Markup

namespace Progress

/-- An element that begins neither opens nor closes another one. -/
theorem enter_frame {p q : Progress} {tag : Tag} (h : p.enter tag = .ok q) :
    q.depth = p.depth ∧ q.closed = p.closed := by
  simp only [enter] at h
  split at h
  · split at h
    · simp at h
    · obtain ⟨name, -, rfl⟩ := exists_of_map_ok h
      exact ⟨rfl, rfl⟩
  · simp at h
  · split at h
    · simp only [addFile] at h
      split at h
      · simp at h
      · split at h
        · simp at h
        · obtain rfl := Except.ok.inj h
          exact ⟨rfl, rfl⟩
    · obtain rfl := Except.ok.inj h
      exact ⟨rfl, rfl⟩
  · obtain rfl := Except.ok.inj h
    exact ⟨rfl, rfl⟩

/-- Enters elements one after the other. -/
def enterAll (p : Progress) : List Tag → Except Fault Progress
  | [] => .ok p
  | tag :: tags =>
    match p.enter tag with
    | .error fault => .error fault
    | .ok p => p.enterAll tags

theorem enterAll_append (p : Progress) (tags more : List Tag) :
    p.enterAll (tags ++ more) =
      match p.enterAll tags with
      | .error fault => .error fault
      | .ok p => p.enterAll more := by
  induction tags generalizing p with
  | nil => rfl
  | cons tag tags ih =>
    rw [List.cons_append, enterAll, enterAll]
    cases p.enter tag with
    | error fault => rfl
    | ok p => exact ih p

theorem enterAll_frame {p q : Progress} {tags : List Tag} (h : p.enterAll tags = .ok q) :
    q.depth = p.depth ∧ q.closed = p.closed := by
  induction tags generalizing p with
  | nil =>
    obtain rfl := Except.ok.inj h
    exact ⟨rfl, rfl⟩
  | cons tag tags ih =>
    rw [enterAll] at h
    split at h
    · simp at h
    · rename_i entered henter
      obtain ⟨hdepth, hclosed⟩ := enter_frame henter
      obtain ⟨hdepth', hclosed'⟩ := ih h
      exact ⟨hdepth'.trans hdepth, hclosed'.trans hclosed⟩

theorem enter_within {p : Progress} (hd : 2 ≤ p.depth) (tag : Tag) : p.enter tag = .ok p := by
  obtain ⟨snapshot, depth, files, closed⟩ := p
  match depth, hd with
  | depth + 2, _ => cases snapshot <;> rfl

theorem steps_opening (p : Progress) (tag : Tag) (rest : List Event) :
    p.steps (.opening tag :: rest) =
      match p.enter tag with
      | .error fault => .error fault
      | .ok q => steps { q with depth := q.depth + 1 } rest := by
  rw [steps, step]
  cases p.enter tag <;> rfl

theorem steps_selfClosing {p : Progress} (hd : p.depth ≠ 0) (tag : Tag) (rest : List Event) :
    p.steps (.selfClosing tag :: rest) =
      match p.enter tag with
      | .error fault => .error fault
      | .ok q => steps q rest := by
  rw [steps, step]
  cases henter : p.enter tag with
  | error fault => rfl
  | ok q =>
    have hq : ¬q.depth = 0 := by rwa [(enter_frame henter).1]
    change steps (if q.depth = 0 then { q with closed := true } else q) rest = _
    rw [if_neg hq]

theorem steps_closing {p : Progress} (hd : 2 ≤ p.depth) (rest : List Event) :
    p.steps (.closing :: rest) = steps { p with depth := p.depth - 1 } rest := by
  have hclosed : (p.closed || decide (p.depth ≤ 1)) = p.closed := by
    rw [decide_eq_false (by omega), Bool.or_false]
  rw [steps, step]
  simp only [hclosed]

mutual

/-- Elements inside elements of the outermost one are passed over. -/
theorem steps_element_within {p : Progress} (hd : 2 ≤ p.depth) (e : Element) (rest : List Event) :
    p.steps (e.events ++ rest) = p.steps rest := by
  cases e with
  | empty tag =>
    rw [Element.events, List.singleton_append, steps_selfClosing (by omega), enter_within hd]
  | holding tag children =>
    have hdepth : 2 ≤ ({ p with depth := p.depth + 1 } : Progress).depth := Nat.le_succ_of_le hd
    rw [Element.events, List.cons_append, List.append_assoc, List.singleton_append, steps_opening,
      enter_within hd]
    simp only []
    rw [steps_eventsOf_within hdepth children, steps_closing hdepth]
    rfl

theorem steps_eventsOf_within {p : Progress} (hd : 2 ≤ p.depth) (es : List Element)
    (rest : List Event) : p.steps (eventsOf es ++ rest) = p.steps rest := by
  cases es with
  | nil => rfl
  | cons e es =>
    rw [eventsOf, List.append_assoc, steps_element_within hd e, steps_eventsOf_within hd es]

end

/-- An element of the outermost one is entered, and that is all. -/
theorem steps_element_inside {p : Progress} (hd : p.depth = 1) (e : Element) (rest : List Event) :
    p.steps (e.events ++ rest) =
      match p.enter e.tag with
      | .error fault => .error fault
      | .ok q => q.steps rest := by
  cases e with
  | empty tag => rw [Element.events, List.singleton_append, steps_selfClosing (by omega), Element.tag]
  | holding tag children =>
    rw [Element.events, List.cons_append, List.append_assoc, List.singleton_append, steps_opening,
      Element.tag]
    cases henter : p.enter tag with
    | error fault => rfl
    | ok q =>
      have hdepth : 2 ≤ ({ q with depth := q.depth + 1 } : Progress).depth := by
        have := (enter_frame henter).1
        change 2 ≤ q.depth + 1
        omega
      simp only []
      rw [steps_eventsOf_within hdepth children, steps_closing hdepth]
      rfl

theorem steps_eventsOf_inside {p : Progress} (hd : p.depth = 1) (es : List Element)
    (rest : List Event) :
    p.steps (eventsOf es ++ rest) =
      match p.enterAll (es.map Element.tag) with
      | .error fault => .error fault
      | .ok q => q.steps rest := by
  induction es generalizing p with
  | nil => rfl
  | cons e es ih =>
    rw [eventsOf, List.append_assoc, steps_element_inside hd, List.map_cons, enterAll]
    cases henter : p.enter e.tag with
    | error fault => rfl
    | ok q => exact ih ((enter_frame henter).1.trans hd)

end Progress

end FileCensus.Document
