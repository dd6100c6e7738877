import FileCensus.Compare

/-!
# Reports of equality

Two snapshots are reported as equal exactly if at every path both have a record or neither has, and
the two records agree in each attribute that the policy checks there. Nothing else of the snapshots
matters.
-/

namespace FileCensus

/-- In a list that ascends by a key, a search by the key finds the one member that has it. -/
theorem find?_eq_some_of_ascending {α : Type} {key : α → String} {xs : List α}
    (h : xs.Pairwise fun a b => key a < key b) {k : String} {a : α} :
    xs.find? (fun a => key a = k) = some a ↔ a ∈ xs ∧ key a = k := by
  constructor
  · intro hfind
    exact ⟨List.mem_of_find?_eq_some hfind, by simpa using List.find?_some hfind⟩
  · rintro ⟨ha, rfl⟩
    obtain ⟨front, back, rfl⟩ := List.append_of_mem ha
    rw [List.pairwise_append] at h
    rw [List.find?_eq_some_iff_append]
    refine ⟨by simp, front, back, rfl, ?_⟩
    intro x hx
    have hlt := h.2.2 x hx a List.mem_cons_self
    simpa using fun he => String.lt_irrefl _ (he ▸ hlt)

theorem Snapshot.get?_eq_some {s : Snapshot} {path : String} {r : Record} :
    s.get? path = some r ↔ r ∈ s.files ∧ r.path.text = path :=
  find?_eq_some_of_ascending s.ascending

namespace Record

theorem value_foldl_without {keep : Attribute → Bool} (attributes : List Attribute) (r : Record)
    (b : Attribute) :
    (attributes.foldl (fun r a => if keep a then r else r.without a) r).value b =
      if b ∈ attributes ∧ keep b = false then none else r.value b := by
  induction attributes generalizing r with
  | nil => simp
  | cons a attributes ih =>
    rw [List.foldl_cons, ih]
    by_cases hb : b = a
    · subst hb
      cases hkeep : keep b <;> simp [value_without]
    · cases hkeep : keep a <;> simp [value_without, hb]

theorem value_mask (keep : Attribute → Bool) (r : Record) (a : Attribute) :
    (r.mask keep).value a = if keep a then r.value a else none := by
  rw [mask, value_foldl_without]
  cases keep a <;> simp

theorem compare_eq_none {l r : Record} {leftLabel rightLabel : String} :
    l.compare leftLabel rightLabel r = none ↔ ∀ a, l.value a = r.value a := by
  have hdifference : ∀ a, l.difference? r a = none ↔ l.value a = r.value a := by
    intro a
    rw [difference?]
    split <;> simp [*]
  rw [compare]
  simp only [ite_eq_left_iff, reduceCtorEq, List.isEmpty_iff, List.filterMap_eq_nil_iff, hdifference,
    Attribute.mem_all, forall_const, imp_false, Classical.not_not]

end Record

namespace Policy

/-- Two records of a path have the same values where the policy checks them. -/
def Agree (policy : Policy) (l r : Record) : Prop :=
  ∀ a, policy.checksAt l.path.text a → l.value a = r.value a

theorem agree_refl (policy : Policy) (r : Record) : policy.Agree r r := fun _ _ => rfl

variable {policy : Policy}

theorem compare_eq_none {l r : Record} {leftLabel rightLabel : String} :
    policy.compare leftLabel l rightLabel r = none ↔ policy.Agree l r := by
  rw [compare, Record.compare_eq_none, Agree]
  apply forall_congr'
  intro a
  rw [Record.value_mask, Record.value_mask]
  cases policy.checksAt l.path.text a <;> simp

theorem isEqual_compareSnapshots {l r : Snapshot} :
    (policy.compareSnapshots l r).isEqual ↔
      ∀ path, Option.Rel policy.Agree (l.get? path) (r.get? path) := by
  have hequal : (policy.compareSnapshots l r).isEqual ↔
      (∀ x ∈ l.files, ∀ y, r.get? x.path.text = some y → policy.Agree x y) ∧
        (∀ x ∈ l.files, r.get? x.path.text ≠ none) ∧
          ∀ y ∈ r.files, l.get? y.path.text ≠ none := by
    simp only [Report.isEqual, compareSnapshots, Bool.and_eq_true, List.isEmpty_iff,
      List.filterMap_eq_nil_iff, List.filter_eq_nil_iff, Option.bind_eq_none_iff, compare_eq_none,
      Snapshot.paths, List.forall_mem_map, Option.isNone_iff_eq_none, and_assoc, ne_eq]
  rw [hequal]
  constructor
  · rintro ⟨hboth, hleft, hright⟩ path
    cases hl : l.get? path with
    | none =>
      cases hr : r.get? path with
      | none => exact .none
      | some y =>
        obtain ⟨hy, rfl⟩ := Snapshot.get?_eq_some.1 hr
        exact absurd hl (hright y hy)
    | some x =>
      obtain ⟨hx, rfl⟩ := Snapshot.get?_eq_some.1 hl
      cases hr : r.get? x.path.text with
      | none => exact absurd hr (hleft x hx)
      | some y => exact .some (hboth x hx y hr)
  · intro h
    refine ⟨?_, ?_, ?_⟩
    · intro x hx y hy
      have hpath := h x.path.text
      rw [Snapshot.get?_eq_some.2 ⟨hx, rfl⟩, hy] at hpath
      cases hpath with
      | some hagree => exact hagree
    · intro x hx hnone
      have hpath := h x.path.text
      rw [Snapshot.get?_eq_some.2 ⟨hx, rfl⟩, hnone] at hpath
      cases hpath
    · intro y hy hnone
      have hpath := h y.path.text
      rw [Snapshot.get?_eq_some.2 ⟨hy, rfl⟩, hnone] at hpath
      cases hpath

end Policy

end FileCensus
