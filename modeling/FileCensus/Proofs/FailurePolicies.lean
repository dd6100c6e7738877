import FileCensus.Proofs.RemovedFiles
import FileCensus.Proofs.ScanAccounts

/-!
# What a scan does about failures

A file that cannot be captured ends a scan that must not leave anything out. A scan that may do so
leaves out that file and no other: it records what is recorded of the tree without the files that
cannot be captured, and each of these is a failure.
-/

namespace FileCensus

namespace ScanSettings

variable {s : ScanSettings} {t : FileTree} {root here : Location} {reads : Location → Reads}

/-- The settings with another way to treat failures. -/
def handling (s : ScanSettings) (policy : FailurePolicy) : ScanSettings :=
  { s with onFailure := policy }

/-- The selected files that cannot be captured, with their faults. -/
def failing (s : ScanSettings) (t : FileTree) (root : Location) (reads : Location → Reads) :
    List (Location × Fault) :=
  (s.selected t root).filterMap fun here =>
    match s.capture reads here with
    | .ok _ => none
    | .error fault => some (here, fault)

/-- The locations of these files. -/
def failingLocations (s : ScanSettings) (t : FileTree) (root : Location)
    (reads : Location → Reads) : List Location :=
  (s.failing t root reads).map fun f => root ++ f.1

theorem mem_failing {fault : Fault} : (here, fault) ∈ s.failing t root reads ↔
    here ∈ s.selected t root ∧ s.capture reads here = .error fault := by
  rw [failing, List.mem_filterMap]
  constructor
  · rintro ⟨other, hmem, h⟩
    split at h
    · cases h
    · rename_i hcapture
      cases h
      exact ⟨hmem, hcapture⟩
  · rintro ⟨hmem, hcapture⟩
    exact ⟨here, hmem, by rw [hcapture]⟩

theorem mem_failingLocations : root ++ here ∈ s.failingLocations t root reads ↔
    here ∈ s.selected t root ∧ ∃ fault, s.capture reads here = .error fault := by
  simp only [failingLocations, List.mem_map, Prod.exists, mem_failing, List.append_cancel_left_eq,
    exists_and_right, exists_eq_right]
  exact exists_and_left

theorem captureFailures_eq : s.captureFailures t root reads =
    (s.failing t root reads).map fun f => ⟨f.1.recordedPath, f.2.message⟩ := by
  rw [captureFailures, failing, List.map_filterMap]
  refine List.filterMap_congr fun here _ => ?_
  cases s.capture reads here <;> rfl

theorem failures_of_failing (hs : t.Sound) : (s.failing t root reads).map (fun f =>
    ⟨Path.relative root.path (root ++ f.1).path, f.2.message⟩) = s.captureFailures t root reads := by
  rw [captureFailures_eq]
  refine List.map_congr_left fun f hf => ?_
  rw [relative_of_selected hs (mem_failing.1 hf).1]

/-! ### The result of a scan -/

/-- The result of a scan that gives one. -/
def account (s : ScanSettings) (t : FileTree) (root : Location) (reads : Location → Reads)
    (name : String) (before : Statistics) : ScanResult :=
  let snapshot := s.gathered t root reads name
  ⟨snapshot, ⟨snapshot.size, before.failures ++
      (s.walkFailures t root ++ s.captureFailures t root reads) ++
        ((Snapshot.empty name).replacedPaths (s.records t root reads)).map collision⟩,
    (s.selected t root).length⟩

theorem scanAt_of_completes (h : s.Completes t root reads) (name : String) (before : Statistics) :
    s.scanAt t root reads name before = .ok (s.account t root reads name before) := by
  obtain ⟨failures, hall⟩ := captureAll_eq_ok.2 ⟨h, rfl⟩
  rw [scanAt, hall, account, ← captureAll_failures hall, ← Snapshot.collisions_gather]
  rfl

theorem error_mem_of_firstFault {α : Type} {outcomes : List (Except Fault α)} {fault : Fault}
    (h : firstFault outcomes = .error fault) : .error fault ∈ outcomes := by
  induction outcomes with
  | nil => cases h
  | cons outcome outcomes ih =>
    cases outcome with
    | error other =>
      obtain rfl := Except.error.inj h
      exact List.mem_cons_self
    | ok x => exact List.mem_cons_of_mem _ (ih (error_of_map_error h))

/-- A scan that lists every directory fails with the fault of a file that it selects. -/
theorem error_of_scanAt (hlisted : ∀ here, .unlisted here ∉ s.found t root) {name : String}
    {before : Statistics} {fault : Fault} (h : s.scanAt t root reads name before = .error fault) :
    ∃ here ∈ s.selected t root, s.capture reads here = .error fault := by
  rw [scanAt] at h
  split at h
  · rename_i other hall
    obtain rfl := Except.error.inj h
    cases hpolicy : s.onFailure with
    | skip => simp [captureAll, hpolicy] at hall
    | abort =>
      simp only [captureAll, hpolicy, unlistedFaults_eq_nil.2 hlisted, List.map_map] at hall
      obtain ⟨here, hmem, hcapture⟩ :=
        List.mem_map.1 (error_mem_of_firstFault (error_of_map_error hall))
      exact ⟨here, hmem, hcapture⟩
  · cases h

theorem completes_handling_abort (hlisted : ∀ here, .unlisted here ∉ s.found t root) :
    (s.handling .abort).Completes t root reads ↔
      ∀ here ∈ s.selected t root, ∃ r, s.capture reads here = .ok r :=
  ⟨fun h => (h rfl).2, fun h _ => ⟨hlisted, h⟩⟩

theorem completes_handling_skip : (s.handling .skip).Completes t root reads :=
  fun h => FailurePolicy.noConfusion h

theorem scanWith_handling {policy : FailurePolicy} (hroot : t.resolve .existing s.target = .ok root)
    (operations : Location → Reads) (name : String) (before : Statistics) :
    (s.handling policy).scanWith t operations name before =
      (s.handling policy).scanAt t root (fun here => operations (root ++ here)) name before := by
  have htarget : (s.handling policy).target = s.target := rfl
  rw [scanWith, htarget, hroot]

/-! ### Scans of trees that differ in files -/

section

variable {before after : FileTree} {changed : Location → Prop}

theorem directory_of_mem_found (hnames : s.respectsIgnoreFiles = false) {f : Found}
    (h : f ∈ s.found t root) : ∃ mode entries, t.root.at? root = some (.directory mode entries) := by
  rw [found] at h
  cases hroot : t.root.at? root with
  | none => simp [hroot] at h
  | some n =>
    cases n with
    | file content modified mode => simp [hroot, Node.isDirectory, hnames] at h
    | link target => simp [hroot, Node.isDirectory, hnames] at h
    | directory mode entries => exact ⟨mode, entries, rfl⟩

/-- Without ignore files the same is found in both trees, but for the files that differ. -/
theorem mem_found_of_filesDiffer (h : before.FilesDiffer after changed)
    (hd : before.root.Distinct) (hd' : after.root.Distinct) (hnames : s.respectsIgnoreFiles = false)
    {mode : Mode} {entries : List (Path.Name × Node)}
    (hroot : before.root.at? root = some (.directory mode entries)) {f : Found}
    (hf : ∀ l, f = .file l → ¬changed (root ++ l)) :
    f ∈ s.found after root ↔ f ∈ s.found before root := by
  obtain ⟨entries', hroot'⟩ := h.directory hroot
  have hfilter : s.filter after root = s.filter before root := by
    rw [filter, filter, hnames]
    rfl
  rw [mem_found hroot hd, mem_found hroot' hd', hfilter]
  exact h.finds (fun _ _ _ => rfl) hroot hroot' hf

theorem takes_of_filesDiffer (h : before.FilesDiffer after changed) {l : Location} {n : Node}
    (hat : before.root.at? l = some n) : s.takes after l = s.takes before l := by
  have houtput : s.outputLocation? after = some l ↔ s.outputLocation? before = some l := by
    simp only [outputLocation?, Option.bind_eq_some_iff, h.entryLocation? hat]
  simp only [takes, houtput]

end

/-- Without some files the others are selected. -/
theorem selected_without {gone : List Location} (hd : t.root.Distinct) (hgone : t.HoldsFiles gone)
    (hnames : s.respectsIgnoreFiles = false) {mode : Mode} {entries : List (Path.Name × Node)}
    (hroot : t.root.at? root = some (.directory mode entries)) :
    s.selected (t.without gone) root =
      (s.selected t root).filter fun here => root ++ here ∉ gone := by
  obtain ⟨hdiffer, hempty⟩ := FileTree.filesDiffer_without hgone
  have hd' : (t.without gone).root.Distinct := FileTree.distinct_without hd
  obtain ⟨entries', hroot'⟩ := hdiffer.directory hroot
  have hmem : ∀ here, here ∈ s.selected (t.without gone) root ↔
      here ∈ s.selected t root ∧ root ++ here ∉ gone := by
    intro here
    by_cases hgone : root ++ here ∈ gone
    · refine iff_of_false (fun h => ?_) fun h => h.2 hgone
      obtain ⟨content, modified, mode, hat⟩ := file_of_mem_found hroot' hd' (mem_selected.1 h).1
      rw [hempty _ hgone] at hat
      cases hat
    · have hf : ∀ l, Found.file here = .file l → root ++ l ∉ gone := by
        intro l hl
        rwa [← Found.file.inj hl]
      rw [mem_selected, mem_selected, mem_found_of_filesDiffer hdiffer hd hd' hnames hroot hf,
        and_iff_left hgone]
      refine and_congr_right fun hfound => ?_
      obtain ⟨content, modified, mode, hat⟩ := file_of_mem_found hroot hd hfound
      rw [takes_of_filesDiffer hdiffer hat]
  refine List.Perm.eq_of_pairwise (fun a b _ _ => Std.le_antisymm) selected_ascending
    (selected_ascending.filter _) ?_
  refine (List.perm_ext_iff_of_nodup (nodup_selected hd') ((nodup_selected hd).filter _)).2 ?_
  intro here
  rw [hmem, List.mem_filter, decide_eq_true_eq]

theorem failingLocations_eq_nil (h : ∀ here ∈ s.selected t root, ∃ r, s.capture reads here = .ok r) :
    s.failingLocations t root reads = [] := by
  rw [failingLocations, List.map_eq_nil_iff, List.eq_nil_iff_forall_not_mem]
  rintro ⟨here, fault⟩ hfailing
  obtain ⟨hmem, hcapture⟩ := mem_failing.1 hfailing
  obtain ⟨r, hr⟩ := h here hmem
  cases hr.symm.trans hcapture

theorem holdsFiles_failing (hd : t.root.Distinct) {mode : Mode} {entries : List (Path.Name × Node)}
    (hroot : t.root.at? root = some (.directory mode entries)) (reads : Location → Reads) :
    t.HoldsFiles (s.failingLocations t root reads) := by
  intro l hl
  obtain ⟨⟨here, fault⟩, hfailing, rfl⟩ := List.mem_map.1 hl
  obtain ⟨content, modified, mode', hat⟩ :=
    file_of_mem_found hroot hd (mem_selected.1 (mem_failing.1 hfailing).1).1
  constructor
  · intro hnil
    obtain ⟨rfl, rfl⟩ := List.append_eq_nil_iff.1 hnil
    cases hroot.symm.trans hat
  · intro n hn
    rw [← Option.some.inj (hat.symm.trans hn)]
    rfl

/-- The tree without the files that cannot be captured leads to the same directory, in which the same
can be listed and the other files are selected. -/
theorem without_failing (hd : t.root.Distinct) (hnames : s.respectsIgnoreFiles = false)
    {target : Bytes} (hroot : t.resolve .existing target = .ok root) (reads : Location → Reads) :
    (t.without (s.failingLocations t root reads)).resolve .existing target = .ok root ∧
    (∀ here, .unlisted here ∈ s.found (t.without (s.failingLocations t root reads)) root ↔
      .unlisted here ∈ s.found t root) ∧
    s.selected (t.without (s.failingLocations t root reads)) root =
      (s.selected t root).filter fun here => (s.capture reads here).isOk := by
  have hcaptured : ∀ here ∈ s.selected t root,
      decide (root ++ here ∉ s.failingLocations t root reads) = (s.capture reads here).isOk := by
    intro here hmem
    rw [Bool.eq_iff_iff, decide_eq_true_eq, mem_failingLocations, and_iff_right hmem]
    cases s.capture reads here <;> simp [Except.isOk, Except.toBool]
  by_cases hnone : ∀ here ∈ s.selected t root, ∃ r, s.capture reads here = .ok r
  · rw [← List.filter_congr hcaptured, failingLocations_eq_nil hnone]
    simp only [List.not_mem_nil, not_false_eq_true, decide_true, List.filter_true]
    exact ⟨hroot, fun _ => .rfl, rfl⟩
  · -- A selected file is below the target, which is a directory then.
    push Not at hnone
    obtain ⟨here, hmem, -⟩ := hnone
    obtain ⟨mode, entries, hdir⟩ := directory_of_mem_found hnames (mem_selected.1 hmem).1
    have hholds := holdsFiles_failing (s := s) hd hdir reads
    obtain ⟨hdiffer, -⟩ := FileTree.filesDiffer_without hholds
    refine ⟨hdiffer.resolve_directory hroot hdir, fun here => ?_, ?_⟩
    · exact mem_found_of_filesDiffer hdiffer hd (FileTree.distinct_without hd) hnames hdir
        fun l hl => Found.noConfusion hl
    · rw [selected_without hd hholds hnames hdir]
      exact List.filter_congr hcaptured

theorem captured_of_selected {t' : FileTree} (h : s.selected t' root =
    (s.selected t root).filter fun here => (s.capture reads here).isOk) :
    ∀ here ∈ s.selected t' root, ∃ r, s.capture reads here = .ok r := by
  intro here hmem
  rw [h] at hmem
  have hok := (List.mem_filter.1 hmem).2
  cases hcapture : s.capture reads here with
  | error fault => simp [hcapture, Except.isOk, Except.toBool] at hok
  | ok r => exact ⟨r, rfl⟩

theorem records_of_selected {t' : FileTree} (h : s.selected t' root =
    (s.selected t root).filter fun here => (s.capture reads here).isOk) :
    s.records t' root reads = s.records t root reads := by
  rw [records, records, h, List.filterMap_filter]
  refine List.filterMap_congr fun here _ => ?_
  cases s.capture reads here <;> rfl

/-! ### The two ways to treat failures -/

/-- A scan that must not leave out anything fails if a selected file cannot be captured. -/
theorem scanAt_abort_error_iff (hlisted : ∀ here, .unlisted here ∉ s.found t root) {name : String}
    {before : Statistics} :
    (∃ fault, (s.handling .abort).scanAt t root reads name before = .error fault) ↔
      ∃ here ∈ s.selected t root, ∃ fault, s.capture reads here = .error fault := by
  constructor
  · rintro ⟨fault, h⟩
    obtain ⟨here, hmem, hcapture⟩ := error_of_scanAt (s := s.handling .abort) hlisted h
    exact ⟨here, hmem, fault, hcapture⟩
  · rintro ⟨here, hmem, fault, hcapture⟩
    cases h : (s.handling .abort).scanAt t root reads name before with
    | error other => exact ⟨other, rfl⟩
    | ok result =>
      obtain ⟨r, hr⟩ := (completes_handling_abort hlisted).1 (scanAt_outcome h).1 here hmem
      cases hr.symm.trans hcapture

end ScanSettings

/-- One scan could not capture some of the files that it selected, and the other did not have them to
capture: they agree in all but the failures of these files. What else fails are the files that another
one of the same path replaces. -/
structure ScanResult.LeavesOut (result reduced : ScanResult) (s : ScanSettings) (t : FileTree)
    (root : Location) (reads : Location → Reads) : Prop where
  snapshot : result.snapshot = reduced.snapshot
  captured : result.statistics.captured = reduced.statistics.captured
  replaced : ∃ replaced : List String,
    reduced.statistics.failures = replaced.map (fun path =>
      ⟨path, "Failed to capture " ++ path ++ ": path collides with another file"⟩) ∧
    ∀ path, replaced.count path = ((s.selected t root).countP fun here =>
      (s.capture reads here).isOk && Path.relative root.path (root ++ here).path = path) - 1
  failures : result.statistics.failures.Perm
    ((s.failing t root reads).map (fun f =>
        ⟨Path.relative root.path (root ++ f.1).path, f.2.message⟩) ++
      reduced.statistics.failures)

namespace ScanSettings

variable {s : ScanSettings} {t : FileTree} {root : Location} {reads : Location → Reads}

theorem count_replaced_relative (hs : t.Sound) (name path : String) :
    ((Snapshot.empty name).replacedPaths (s.records t root reads)).count path =
      ((s.selected t root).countP fun here =>
        (s.capture reads here).isOk && Path.relative root.path (root ++ here).path = path) - 1 := by
  rw [count_replaced]
  refine congrArg (· - 1) (List.countP_congr fun here hmem => ?_)
  rw [relative_of_selected hs hmem]

theorem leavesOut_account {t' : FileTree} (hs : t.Sound)
    (hlisted : ∀ here, .unlisted here ∉ s.found t root)
    (hlisted' : ∀ here, .unlisted here ∉ s.found t' root) (h : s.selected t' root =
      (s.selected t root).filter fun here => (s.capture reads here).isOk) (name : String) :
    (s.account t root reads name .none).LeavesOut (s.account t' root reads name .none) s t root
      reads := by
  have hrecords := records_of_selected h
  have hwalk := walkFailures_eq_nil.2 hlisted
  have hwalk' := walkFailures_eq_nil.2 hlisted'
  have hcaptured : s.captureFailures t' root reads = [] :=
    captureFailures_eq_nil.2 (captured_of_selected h)
  have hnone : Statistics.none.failures = [] := rfl
  have hgathered : s.gathered t' root reads name = s.gathered t root reads name := by
    rw [gathered, gathered, hrecords]
  constructor
  · exact hgathered.symm
  · simp only [account, hgathered]
  · refine ⟨(Snapshot.empty name).replacedPaths (s.records t root reads), ?_,
      count_replaced_relative hs name⟩
    rw [← funext collision_eq]
    simp only [account, hwalk', hcaptured, hnone, hrecords, List.nil_append]
  · rw [failures_of_failing hs]
    simp only [account, hwalk, hwalk', hcaptured, hnone, hrecords, List.nil_append]
    exact .refl _

/-- In a tree whose directories can all be listed, a scan that must not leave out anything ends with
the fault of a selected file if one cannot be captured. A scan that may leave out files gives the
snapshot of the tree without those files, and each of them is a failure, beside the files that another
one of the same path replaces. Where all can be captured both give the same. -/
theorem scanWith_policies (hs : t.Sound) (hnames : s.respectsIgnoreFiles = false)
    (hroot : t.resolve .existing s.target = .ok root)
    (hlisted : ∀ here, .unlisted here ∉ s.found t root) (operations : Location → Reads)
    (name : String) :
    let reads := fun here => operations (root ++ here)
    (∀ before,
      ((∃ fault, (s.handling .abort).scanWith t operations name before = .error fault) ↔
        ∃ here ∈ s.selected t root, ∃ fault, s.capture reads here = .error fault) ∧
      ∀ fault, (s.handling .abort).scanWith t operations name before = .error fault →
        ∃ here ∈ s.selected t root, s.capture reads here = .error fault) ∧
    (∃ skipped reduced, (s.handling .skip).scanWith t operations name .none = .ok skipped ∧
      (s.handling .abort).scanWith (t.without (s.failingLocations t root reads)) operations name
        .none = .ok reduced ∧
      skipped.LeavesOut reduced s t root reads) ∧
    ((∀ here ∈ s.selected t root, ∃ r, s.capture reads here = .ok r) → ∀ before,
      (s.handling .skip).scanWith t operations name before =
        (s.handling .abort).scanWith t operations name before) := by
  intro reads
  simp only [scanWith_handling hroot]
  refine ⟨fun before => ⟨scanAt_abort_error_iff hlisted, fun fault h => ?_⟩, ?_, ?_⟩
  · exact error_of_scanAt (s := s.handling .abort) hlisted h
  · obtain ⟨hroot', hunlisted, hselected⟩ := without_failing hs.distinct hnames hroot reads
    have hlisted' : ∀ here, .unlisted here ∉
        s.found (t.without (s.failingLocations t root reads)) root := fun here hmem =>
      hlisted here ((hunlisted here).1 hmem)
    have hcompletes := (completes_handling_abort hlisted').2 (captured_of_selected hselected)
    refine ⟨_, s.account (t.without (s.failingLocations t root reads)) root reads name .none,
      scanAt_of_completes completes_handling_skip name .none, ?_, ?_⟩
    · exact (scanWith_handling hroot' _ _ _).trans (scanAt_of_completes hcompletes name .none)
    · exact leavesOut_account hs hlisted hlisted' hselected name
  · intro hcaptured before
    rw [scanAt_of_completes completes_handling_skip,
      scanAt_of_completes ((completes_handling_abort hlisted).2 hcaptured)]
    rfl

/-! ### A project with an unreadable file -/

def unreadable : Fault := .capture "src\\a.c" (.system .denied)

/-- One of the three files of one path cannot be read. -/
def projectOperations (location : Location) : Reads :=
  if location = [Utf8.encode "src\\a.c"] then { projectReads with size := .error unreadable }
  else projectReads

theorem failing_project : (projectSettings []).failing projectTree []
    (fun here => projectOperations ([] ++ here)) = [([Utf8.encode "src\\a.c"], unreadable)] := by
  rw [failing, selected_project]
  decide +kernel

/-- The file that cannot be read ends a scan, or is left out with a failure. The scan of the project
without it replaces one of the two other files. -/
theorem scanWith_policies_project :
    let collides : CaptureFailure :=
      ⟨"src/a.c", "Failed to capture src/a.c: path collides with another file"⟩
    (∃ fault, ((projectSettings []).handling .abort).scanWith projectTree projectOperations ""
      .none = .error fault) ∧
    ∃ skipped reduced, ((projectSettings []).handling .skip).scanWith projectTree projectOperations
        "" .none = .ok skipped ∧
      ((projectSettings []).handling .abort).scanWith
        (projectTree.without [[Utf8.encode "src\\a.c"]]) projectOperations "" .none = .ok reduced ∧
      skipped.snapshot = reduced.snapshot ∧
      reduced.statistics.failures = [collides] ∧
      skipped.statistics.failures.Perm
        [⟨"src/a.c", "Failed to capture src\\a.c: Permission denied (os error 13)"⟩, collides] := by
  intro collides
  have hbad := mem_failing.1 (failing_project ▸ List.mem_cons_self)
  obtain ⟨habort, ⟨skipped, reduced, hskipped, hreduced, hleft⟩, -⟩ :=
    scanWith_policies sound_project rfl resolve_project (meetsNoFault_project []).listed
      projectOperations ""
  rw [failingLocations, failing_project] at hreduced
  obtain ⟨replaced, hfailures, hcount⟩ := hleft.replaced
  have hone : replaced = ["src/a.c"] := by
    refine List.perm_singleton.1 (List.perm_iff_count.2 fun path => ?_)
    rw [hcount]
    by_cases hpath : path = "src/a.c"
    · rw [hpath, selected_project]
      decide +kernel
    · have hnone : ["src/a.c"].count path = 0 := List.count_eq_zero.2 (by simpa using hpath)
      rw [hnone, List.countP_eq_zero.2]
      intro here hmem hboth
      have hrelative := of_decide_eq_true (Bool.and_eq_true_iff.1 hboth).2
      exact hpath (hrelative.symm.trans (relative_project here hmem))
  rw [hone] at hfailures
  refine ⟨(habort .none).1.2 ⟨_, hbad.1, _, hbad.2⟩, skipped, reduced, hskipped, hreduced,
    hleft.snapshot, hfailures, ?_⟩
  have hperm := hleft.failures
  rw [failing_project, hfailures] at hperm
  exact hperm.trans (.of_eq (by decide +kernel))

end ScanSettings

end FileCensus
