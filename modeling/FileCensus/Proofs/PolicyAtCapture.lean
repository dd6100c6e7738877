import FileCensus.Proofs.MaskedSnapshots
import FileCensus.Proofs.Resolution
import FileCensus.Proofs.ScanRecords

/-!
# Applying a policy at capture

A policy may be applied when files are captured or when snapshots are compared. A scan under a policy
gives the snapshot that a scan of everything gives, without what the policy drops, and so the reports
of both ways are the same.
-/

namespace FileCensus

/-- The policy that checks everything everywhere, and digests contents in the same way. -/
def Policy.full (policy : Policy) : Policy := ⟨⟨.const true, policy.checks.hashMode⟩, []⟩

/-- What a policy leaves of a record: its path, and of its values exactly those that it checks. -/
structure Policy.Leaves (policy : Policy) (full left : Record) : Prop where
  path : left.path = full.path
  captured : ∀ a, left.captured a =
    if policy.checksAt full.path.text a then full.captured a else none

theorem Policy.leaves_mask (policy : Policy) (r : Record) : policy.Leaves r (policy.mask r) :=
  ⟨policy.path_mask r, Record.captured_mask _ r⟩

theorem Policy.rel_leaves_masked (policy : Policy) (s : Snapshot) (path : String) :
    Option.Rel policy.Leaves (s.get? path) ((s.masked policy).get? path) := by
  rw [Snapshot.get?_masked]
  cases s.get? path with
  | none => exact .none
  | some r => exact .some (policy.leaves_mask r)

namespace ScanSettings

/-- The settings with another policy. -/
def under (s : ScanSettings) (policy : Policy) : ScanSettings := { s with policy }

variable {s : ScanSettings} {policy : Policy} {t : FileTree} {root : Location}
variable {reads : Location → Reads}

theorem capture_under {here : Location} {r : Record}
    (h : (s.under policy.full).capture reads here = .ok r) :
    (s.under policy).capture reads here = .ok (policy.mask r) := by
  have hmode : policy.full.checks.hashMode = policy.checks.hashMode := rfl
  have hall : ∀ a, shouldCheck policy.full.checks none a := by
    intro a
    simp [Policy.full, shouldCheck]
  rw [Policy.mask, path_capture h]
  exact Reads.capture_mask hmode hall h

/-- What the full scan can capture, the scan under the policy can capture, and the same remains to be
recorded. -/
theorem completes_under (habort : s.onFailure = .abort)
    (h : (s.under policy.full).Completes t root reads) :
    (s.under policy).Completes t root reads ∧
      (s.under policy).records t root reads =
        ((s.under policy.full).records t root reads).map policy.mask := by
  obtain ⟨hlisted, hcaptured⟩ := h habort
  constructor
  · refine fun _ => ⟨hlisted, fun here hmem => ?_⟩
    obtain ⟨r, hr⟩ := hcaptured here hmem
    exact ⟨policy.mask r, capture_under hr⟩
  · rw [records, records, List.map_filterMap]
    refine List.filterMap_congr fun here hmem => ?_
    obtain ⟨r, hr⟩ := hcaptured here hmem
    rw [hr, capture_under hr]
    rfl

theorem gathered_under {name : String}
    (h : (s.under policy).records t root reads =
      ((s.under policy.full).records t root reads).map policy.mask) :
    (s.under policy).gathered t root reads name =
      ((s.under policy.full).gathered t root reads name).masked policy := by
  refine Snapshot.ext ?_ (Snapshot.files_eq_iff.2 fun path => ?_)
  · simp [gathered]
  · rw [Snapshot.get?_masked, get?_gathered, get?_gathered, record?, record?, h, ← List.map_reverse,
      policy.find?_map_mask]

/-- A scan under a policy gives the masked snapshot of the full scan. -/
theorem scanWith_under {operations : Location → Reads} {name : String} {before : Statistics}
    {full : Snapshot} (habort : s.onFailure = .abort)
    (h : ((s.under policy.full).scanWith t operations name before).map ScanResult.snapshot =
      .ok full) (before' : Statistics) :
    ((s.under policy).scanWith t operations name before').map ScanResult.snapshot =
      .ok (full.masked policy) := by
  have htarget : (s.under policy).target = (s.under policy.full).target := rfl
  rw [scanWith] at h ⊢
  rw [htarget]
  cases hresolve : t.resolve .existing (s.under policy.full).target with
  | error cause => simp [hresolve, Except.map] at h
  | ok root =>
    simp only [hresolve] at h ⊢
    obtain ⟨hcompletes, rfl⟩ := scanAt_eq_ok.1 h
    obtain ⟨hcompletes', hrecords⟩ := completes_under habort hcompletes
    exact scanAt_eq_ok.2 ⟨hcompletes', gathered_under hrecords⟩

/-- Two scans under a policy succeed where the scans of everything do, drop exactly what the policy
does not check, and compare under the policy or without one as the full snapshots do under it. -/
theorem compareSnapshots_under (policy : Policy) {s₁ s₂ : ScanSettings} {t₁ t₂ : FileTree}
    {operations₁ operations₂ : Location → Reads} {name₁ name₂ : String}
    {before₁ before₂ : Statistics} {full₁ full₂ : Snapshot}
    (habort₁ : s₁.onFailure = .abort) (habort₂ : s₂.onFailure = .abort)
    (h₁ : ((s₁.under policy.full).scanWith t₁ operations₁ name₁ before₁).map ScanResult.snapshot =
      .ok full₁)
    (h₂ : ((s₂.under policy.full).scanWith t₂ operations₂ name₂ before₂).map ScanResult.snapshot =
      .ok full₂) :
    ∃ left₁ left₂ : Snapshot,
      (∀ before, ((s₁.under policy).scanWith t₁ operations₁ name₁ before).map ScanResult.snapshot =
        .ok left₁) ∧
      (∀ before, ((s₂.under policy).scanWith t₂ operations₂ name₂ before).map ScanResult.snapshot =
        .ok left₂) ∧
      (∀ path, Option.Rel policy.Leaves (full₁.get? path) (left₁.get? path)) ∧
      (∀ path, Option.Rel policy.Leaves (full₂.get? path) (left₂.get? path)) ∧
      policy.compareSnapshots full₁ full₂ = policy.compareSnapshots left₁ left₂ ∧
      policy.compareSnapshots left₁ left₂ = left₁.compare left₂ := by
  have hsame := policy.compareSnapshots_masked (fun _ _ h => h) full₁ full₂
  have hunmasked := policy.compareSnapshots_masked
    (fun path a _ => Policy.checksAt_everything path a) full₁ full₂
  exact ⟨full₁.masked policy, full₂.masked policy, scanWith_under habort₁ h₁,
    scanWith_under habort₂ h₂, policy.rel_leaves_masked full₁, policy.rel_leaves_masked full₂,
    hsame.symm, hsame.trans hunmasked.symm⟩

/-! ### A log that has grown -/

def logTree : FileTree :=
  ⟨.directory none [(Utf8.encode "a.log", .file [] 0 none)], [], true⟩

def logSettings : ScanSettings := ⟨Utf8.encode ".", none, .everything, [], [], false, 4, .abort⟩

/-- Everything is checked but the sizes of logs. -/
def logPolicy : Policy := ⟨.all, [⟨"*.log", Rule.empty.set .size .skip⟩]⟩

def logReads (size : UInt64) : Reads :=
  ⟨.ok size, .ok 5, fun _ => .ok "d", .error (.unsupported .permissions "a.log")⟩

def logSnapshot (name : String) (size : UInt64) : Snapshot :=
  ⟨name, [⟨.of "a.log", some size, some 5, some "d", none⟩], List.pairwise_singleton _ _⟩

theorem resolve_log : logTree.resolve .existing logSettings.target = .ok [] :=
  FileTree.resolve_eq_ok.2 ⟨by decide, by decide, by decide, .dot rfl rfl .done⟩

theorem scanWith_log (policy : Policy) (operations : Location → Reads) (name : String) :
    (logSettings.under policy).scanWith logTree operations name .none =
      (logSettings.under policy).scanAt logTree [] operations name .none := by
  have htarget : (logSettings.under policy).target = logSettings.target := rfl
  rw [scanWith, htarget, resolve_log]
  rfl

/-- The full snapshots of a log that has grown differ, and those under the policy do not. -/
theorem compareSnapshots_under_log :
    ((logSettings.under logPolicy.full).scanWith logTree (fun _ => logReads 3) "old"
      .none).map ScanResult.snapshot = .ok (logSnapshot "old" 3) ∧
    ((logSettings.under logPolicy.full).scanWith logTree (fun _ => logReads 4) "new"
      .none).map ScanResult.snapshot = .ok (logSnapshot "new" 4) ∧
    ((logSnapshot "old" 3).compare (logSnapshot "new" 4)).isEqual = false ∧
    ∃ left₁ left₂ : Snapshot,
      ((logSettings.under logPolicy).scanWith logTree (fun _ => logReads 3) "old"
        .none).map ScanResult.snapshot = .ok left₁ ∧
      ((logSettings.under logPolicy).scanWith logTree (fun _ => logReads 4) "new"
        .none).map ScanResult.snapshot = .ok left₂ ∧
      (left₁.compare left₂).isEqual := by
  have h₁ : ((logSettings.under logPolicy.full).scanWith logTree (fun _ => logReads 3) "old"
      .none).map ScanResult.snapshot = .ok (logSnapshot "old" 3) := by
    rw [scanWith_log]
    decide +kernel
  have h₂ : ((logSettings.under logPolicy.full).scanWith logTree (fun _ => logReads 4) "new"
      .none).map ScanResult.snapshot = .ok (logSnapshot "new" 4) := by
    rw [scanWith_log]
    decide +kernel
  obtain ⟨left₁, left₂, hleft₁, hleft₂, -, -, hsame, hunmasked⟩ :=
    compareSnapshots_under logPolicy (by rfl) (by rfl) h₁ h₂
  refine ⟨h₁, h₂, by decide +kernel, left₁, left₂, hleft₁ .none, hleft₂ .none, ?_⟩
  rw [← hunmasked, ← hsame]
  decide +kernel

end ScanSettings

end FileCensus
