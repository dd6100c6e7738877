import FileCensus.Proofs.ExactReports

/-!
# Masked snapshots

A policy can be applied to a snapshot itself: every record loses the values that the policy does not
check at its path. A comparison under the policy sees nothing else, and a comparison of masked
snapshots may check more and sees the same. Two snapshots are equal under a policy exactly if their
masked files are.
-/

namespace FileCensus

/-- The record with nothing but the values that the policy checks at its path. -/
def Policy.mask (policy : Policy) (r : Record) : Record := r.mask (policy.checksAt r.path.text)

namespace Policy

variable {policy : Policy} {l r : Record}

@[simp] theorem path_mask (policy : Policy) (r : Record) : (policy.mask r).path = r.path :=
  Record.path_mask _ r

@[simp] theorem mask_everything (r : Record) : everything.mask r = r :=
  Record.mask_of_forall (checksAt_everything _) r

/-- What is found of masked records is the mask of what is found. -/
theorem find?_map_mask (policy : Policy) (path : String) (files : List Record) :
    (files.map policy.mask).find? (·.path.text = path) =
      (files.find? (·.path.text = path)).map policy.mask := by
  have hpath : (fun r : Record => decide (r.path.text = path)) ∘ policy.mask =
      fun r => decide (r.path.text = path) := by
    funext r
    rw [Function.comp_apply, policy.path_mask]
  rw [List.find?_map, hpath]

theorem mask_eq_iff (h : l.path = r.path) : policy.mask l = policy.mask r ↔ policy.Agree l r := by
  rw [mask, mask, Record.eq_mask_iff, Agree]
  simp only [Record.path_mask, h, true_and, Record.captured_mask, Record.value_eq_iff]
  apply forall_congr'
  intro a
  cases policy.checksAt r.path.text a <;> simp

theorem compare_mask {other : Policy} (hmore : ∀ path a, policy.checksAt path a → other.checksAt path a)
    (h : l.path = r.path) (leftLabel rightLabel : String) :
    other.compare leftLabel (policy.mask l) rightLabel (policy.mask r) =
      policy.compare leftLabel l rightLabel r := by
  have htwice : ∀ x : Record, x.path = r.path →
      (policy.mask x).mask (other.checksAt r.path.text) = x.mask (policy.checksAt r.path.text) := by
    intro x hx
    rw [mask, hx, Record.mask_mask (hmore r.path.text)]
  rw [compare, compare, path_mask, h]
  simp only [htwice l h, htwice r rfl]

end Policy

namespace Snapshot

/-- The snapshot as it would be if only what the policy checks had been captured. -/
def masked (s : Snapshot) (policy : Policy) : Snapshot where
  name := s.name
  files := s.files.map policy.mask
  ascending := s.ascending.map _ fun x y h => by rwa [policy.path_mask, policy.path_mask]

@[simp] theorem name_masked (s : Snapshot) (policy : Policy) : (s.masked policy).name = s.name := rfl

@[simp] theorem files_masked (s : Snapshot) (policy : Policy) :
    (s.masked policy).files = s.files.map policy.mask := rfl

theorem get?_masked (s : Snapshot) (policy : Policy) (path : String) :
    (s.masked policy).get? path = (s.get? path).map policy.mask :=
  policy.find?_map_mask path s.files

theorem paths_masked (s : Snapshot) (policy : Policy) : (s.masked policy).paths = s.paths := by
  rw [paths, files_masked, List.map_map]
  exact List.map_congr_left fun r _ => congrArg NormalPath.text (policy.path_mask r)

theorem files_masked_everything (s : Snapshot) : (s.masked .everything).files = s.files := by
  rw [files_masked, List.map_id'' Policy.mask_everything]

theorem path_of_get? {s : Snapshot} {path : String} {r : Record} (h : s.get? path = some r) :
    r.path.text = path :=
  (get?_eq_some.1 h).2

/-- A snapshot's files are what it has at each path. -/
theorem files_eq_iff {l r : Snapshot} : l.files = r.files ↔ ∀ path, l.get? path = r.get? path := by
  constructor
  · intro h path
    rw [get?, get?, h]
  · intro h
    have hmem : ∀ (s : Snapshot) (x : Record), s.get? x.path.text = some x ↔ x ∈ s.files := by
      intro s x
      rw [get?_eq_some]
      exact and_iff_left rfl
    refine eq_of_ascending (fun r : Record => r.path.text) l.ascending r.ascending fun x => ?_
    rw [← hmem l, ← hmem r, h]

end Snapshot

namespace Policy

variable {policy : Policy} {l r : Snapshot}

theorem isEqual_iff_masked :
    (policy.compareSnapshots l r).isEqual ↔ (l.masked policy).files = (r.masked policy).files := by
  rw [isEqual_compareSnapshots, Snapshot.files_eq_iff]
  apply forall_congr'
  intro path
  rw [Snapshot.get?_masked, Snapshot.get?_masked]
  cases hl : l.get? path with
  | none => cases r.get? path <;> simp
  | some x =>
    cases hr : r.get? path with
    | none => simp
    | some y =>
      have hpath : x.path = y.path :=
        NormalPath.ext ((Snapshot.path_of_get? hl).trans (Snapshot.path_of_get? hr).symm)
      simp [mask_eq_iff hpath]

/-- What a policy drops anyway may be dropped before, and what is then checked beyond it is not
there. -/
theorem compareSnapshots_masked {other : Policy}
    (hmore : ∀ path a, policy.checksAt path a → other.checksAt path a) (l r : Snapshot) :
    other.compareSnapshots (l.masked policy) (r.masked policy) = policy.compareSnapshots l r := by
  have htraces : (other.compareSnapshots (l.masked policy) (r.masked policy)).traces =
      (policy.compareSnapshots l r).traces := by
    simp only [compareSnapshots, Snapshot.files_masked, Snapshot.name_masked, List.filterMap_map]
    refine List.filterMap_congr fun x _ => ?_
    simp only [Function.comp_apply, path_mask, Snapshot.get?_masked, Option.bind_map]
    -- The pair has one path, so both records are masked alike.
    cases hr : r.get? x.path.text with
    | none => rfl
    | some y => exact compare_mask hmore (NormalPath.ext (Snapshot.path_of_get? hr).symm) _ _
  simp only [compareSnapshots, Snapshot.paths_masked, Snapshot.get?_masked, Option.isNone_map,
    Snapshot.name_masked] at htraces ⊢
  rw [htraces]

end Policy

end FileCensus
