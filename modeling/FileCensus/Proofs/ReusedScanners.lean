import FileCensus.Proofs.ScanSteps

/-!
# Scanners that scan again

How a scan ends does not depend on earlier scans of the same scanner. But its failures are added to
theirs, which are never taken back, while the number of captured files is that of the last snapshot.
So the statistics describe the last scan exactly if no earlier one has left failures.
-/

namespace FileCensus

/-- The same but for the order of the failures. -/
def Statistics.Agrees (a b : Statistics) : Prop :=
  a.captured = b.captured ∧ a.failures.Perm b.failures

namespace ScanSettings

/-- Where every file is captured, none replaces another exactly if their paths are different. -/
theorem replacedPaths_eq_nil {s : ScanSettings} {t : FileTree} {root : Location}
    {reads : Location → Reads} (h : ∀ here ∈ s.selected t root, ∃ r, s.capture reads here = .ok r)
    (name : String) :
    (Snapshot.empty name).replacedPaths (s.records t root reads) = [] ↔
      ((s.selected t root).map Location.recordedPath).Nodup := by
  have hcount : ∀ path,
      ((s.selected t root).countP fun here =>
        (s.capture reads here).isOk && here.recordedPath = path) =
      ((s.selected t root).map Location.recordedPath).count path := by
    intro path
    rw [List.count_eq_countP, List.countP_map]
    refine List.countP_congr fun here hmem => ?_
    obtain ⟨r, hr⟩ := h here hmem
    simp [hr, Except.isOk, Except.toBool]
  rw [List.eq_nil_iff_forall_not_mem, List.nodup_iff_count_le_one]
  refine forall_congr' fun path => ?_
  rw [← List.count_eq_zero, count_replaced, hcount, Nat.sub_eq_zero_iff_le]

end ScanSettings

namespace Scanner

variable {scanner : Scanner} {settings : ScanSettings} {o : Occasion} {snapshot : Snapshot}
  {root : Location} {schedule : Schedule}

/-- What a fresh scanner reports after one scan. -/
def reported (settings : ScanSettings) (o : Occasion) : Statistics :=
  ((fresh settings).scan o).2.statistics

/-! ### One scan -/

theorem scan_eq {outcome : Except Fault Snapshot} {failures : List CaptureFailure}
    (h : (scanner.settings.assemble o).Adds outcome failures) :
    scanner.scan o = (outcome, ⟨scanner.settings, scanner.statistics.next outcome failures⟩) := by
  rw [scan, ScanSettings.run_scanning h]

theorem reported_eq {outcome : Except Fault Snapshot} {failures : List CaptureFailure}
    (h : (settings.assemble o).Adds outcome failures) :
    reported settings o = Statistics.none.next outcome failures := by
  rw [reported, scan_eq h]
  rfl

/-- A scan ends like that of a fresh scanner, and adds the failures that this one reports. -/
theorem scan_step (scanner : Scanner) (o : Occasion) :
    scanner.scan o = (((fresh scanner.settings).scan o).1,
      ⟨scanner.settings, scanner.statistics.next ((fresh scanner.settings).scan o).1
        (reported scanner.settings o).failures⟩) := by
  obtain ⟨outcome, failures, h⟩ := ScanSettings.exists_adds scanner.settings o
  have hfresh : (fresh scanner.settings).scan o = (outcome, _) := scan_eq h
  rw [scan_eq h, reported_eq h, hfresh]
  rfl

/-- Where the workers finish the files in their order, a scanner scans as its settings say. -/
theorem scan_inOrder (scanner : Scanner) (t : FileTree) (operations : Location → Reads)
    (name : String) :
    scanner.scan (.inOrder t operations name) =
      match scanner.settings.scanWith t operations name scanner.statistics with
      | .ok result => (.ok result.snapshot, { scanner with statistics := result.statistics })
      | .error fault => (.error fault, scanner) := by
  rw [scan, ScanSettings.run_inOrder]
  cases scanner.settings.scanWith t operations name scanner.statistics <;> rfl

theorem captured_scan (h : (scanner.scan o).1 = .ok snapshot) :
    (scanner.scan o).2.statistics.captured = snapshot.size := by
  obtain ⟨outcome, failures, hadds⟩ := ScanSettings.exists_adds scanner.settings o
  rw [scan_eq hadds] at h ⊢
  obtain rfl : outcome = .ok snapshot := h
  rfl

theorem failures_reported (hroot : o.tree.resolve .existing settings.target = .ok root)
    (hworkers : o.workers = .ok schedule)
    (h : settings.Completes o.tree root (o.readsAt root)) :
    (reported settings o).failures = settings.addedFailures o root schedule := by
  rw [reported_eq (ScanSettings.adds_assemble hroot hworkers h)]
  rfl

/-- A scan that gives a snapshot leaves no failures exactly if it lists every directory, captures every
file that it selects, and no two of these have the same path. -/
theorem failures_reported_eq_nil (hroot : o.tree.resolve .existing settings.target = .ok root)
    (hworkers : o.workers = .ok schedule)
    (h : settings.Completes o.tree root (o.readsAt root)) :
    (reported settings o).failures = [] ↔
      (∀ here, .unlisted here ∉ settings.found o.tree root) ∧
      (∀ here ∈ settings.selected o.tree root, ∃ r,
        settings.capture (o.readsAt root) here = .ok r) ∧
      ((settings.selected o.tree root).map Location.recordedPath).Nodup := by
  have hmem : ∀ here, here ∈ schedule.order (settings.selected o.tree root) ↔
      here ∈ settings.selected o.tree root := fun _ => (schedule.perm _).mem_iff
  rw [failures_reported hroot hworkers h, ScanSettings.addedFailures, List.append_eq_nil_iff,
    List.append_eq_nil_iff, ScanSettings.walkFailures_eq_nil, List.map_eq_nil_iff,
    List.map_eq_nil_iff, ScanSettings.captureFaults_eq_nil]
  simp only [hmem]
  exact and_congr_right fun _ => and_congr_right fun hcaptured =>
    ScanSettings.replacedPaths_eq_nil hcaptured o.name

/-- With other workers a scan that gives a snapshot gives it again and leaves the same failures. -/
theorem scan_rescheduled (h : ((fresh settings).scan o).1 = .ok snapshot) (again : Schedule) :
    ((fresh settings).scan { o with workers := .ok again }).1 = .ok snapshot ∧
      (reported settings o).failures.Perm
        (reported settings { o with workers := .ok again }).failures := by
  rcases ScanSettings.assemble_cases settings o with
    ⟨root, schedule, hroot, hworkers, hcompletes⟩ | ⟨fault, failures, hfails⟩
  · have hagain := ScanSettings.adds_assemble (o := { o with workers := .ok again }) hroot rfl
      hcompletes
    rw [scan_eq (ScanSettings.adds_assemble hroot hworkers hcompletes)] at h
    rw [scan_eq hagain, failures_reported hroot hworkers hcompletes,
      failures_reported (o := { o with workers := .ok again }) hroot rfl hcompletes]
    exact ⟨h, ScanSettings.perm_addedFailures root schedule again⟩
  · rw [scan_eq hfails] at h
    cases h

/-! ### Runs of scans -/

/-- After any scans their failures stand one after another. -/
theorem after_step (scanner : Scanner) (occasions : List Occasion) :
    (scanner.after occasions).settings = scanner.settings ∧
      (scanner.after occasions).statistics.failures = scanner.statistics.failures ++
        occasions.flatMap fun o => (reported scanner.settings o).failures := by
  induction occasions generalizing scanner with
  | nil => exact ⟨rfl, (List.append_nil _).symm⟩
  | cons o occasions ih =>
    obtain ⟨hsettings, hfailures⟩ := ih (scanner.scan o).2
    have hstays : (scanner.scan o).2.settings = scanner.settings := rfl
    have hadded : (scanner.scan o).2.statistics.failures =
        scanner.statistics.failures ++ (reported scanner.settings o).failures :=
      congrArg (·.2.statistics.failures) (scan_step scanner o)
    refine ⟨hsettings, hfailures.trans ?_⟩
    rw [hstays, hadded, List.flatMap_cons, List.append_assoc]

/-- After a scan that gives a snapshot, a scanner reports the number of files that a fresh one reports,
and beside its failures all those of earlier scans. So it reports the same exactly if none of the
earlier scans has left failures. -/
theorem statistics_of_reused (settings : ScanSettings) (earlier : List Occasion) (last : Occasion)
    (h : (((fresh settings).after earlier).scan last).1 = .ok snapshot) (again : Schedule) :
    let reused := (((fresh settings).after earlier).scan last).2.statistics
    let alone := { last with workers := .ok again }
    ((fresh settings).scan alone).1 = .ok snapshot ∧
    reused.captured = (reported settings alone).captured ∧
    reused.failures.Perm
      ((earlier.flatMap fun o => (reported settings o).failures) ++
        (reported settings alone).failures) ∧
    (reused.Agrees (reported settings alone) ↔
      ∀ o ∈ earlier, (reported settings o).failures = []) := by
  intro reused alone
  obtain ⟨hsettings, hearlier⟩ : _ = settings ∧ _ = [] ++ _ := after_step (fresh settings) earlier
  have hstep := scan_step ((fresh settings).after earlier) last
  rw [hsettings] at hstep
  have hfirst : ((fresh settings).scan last).1 = .ok snapshot := by rw [← h, hstep]
  obtain ⟨halone, hfailures⟩ := scan_rescheduled hfirst again
  have hcaptured : reused.captured = (reported settings alone).captured :=
    (captured_scan h).trans (captured_scan halone).symm
  have hreused : reused.failures = (earlier.flatMap fun o => (reported settings o).failures) ++
      (reported settings last).failures := by
    rw [List.nil_append] at hearlier
    exact hearlier ▸ congrArg (·.2.statistics.failures) hstep
  have hperm := (List.Perm.of_eq hreused).trans (hfailures.append_left _)
  refine ⟨halone, hcaptured, hperm, ?_⟩
  rw [← List.flatMap_eq_nil_iff]
  constructor
  · -- Failures are never taken back, so the earlier ones would make the list too long.
    rintro ⟨-, hsame⟩
    have hlength := (hperm.symm.trans hsame).length_eq
    rw [List.length_append] at hlength
    exact List.eq_nil_of_length_eq_zero (Nat.add_eq_right.1 hlength)
  · intro hnil
    rw [hnil, List.nil_append] at hperm
    exact ⟨hcaptured, hperm⟩

/-! ### A project that is scanned twice -/

section

open ScanSettings

def skipping (includePatterns : List String) : ScanSettings :=
  (projectSettings includePatterns).handling .skip

def unreadableProject : Occasion := .inOrder projectTree projectOperations ""

def readableProject : Occasion := .inOrder projectTree (fun _ => projectReads) ""

/-- The scan of the project after one that could not read a file. -/
def secondScan (includePatterns : List String) : Except Fault Snapshot × Scanner :=
  ((fresh (skipping includePatterns)).after [unreadableProject]).scan readableProject

theorem exists_secondScan (includePatterns : List String) :
    ∃ snapshot, (secondScan includePatterns).1 = .ok snapshot := by
  have hadds := adds_assemble (s := skipping includePatterns) (o := readableProject)
    resolve_project rfl completes_handling_skip
  exact ⟨_, congrArg Prod.fst (scan_eq hadds)⟩

/-- The file that the first scan could not read is still reported after the second, which has read it.
Where the settings leave out that file, the first scan leaves no failures, and the second is reported
as by a fresh scanner. -/
theorem statistics_of_reused_project :
    (∃ snapshot, (secondScan []).1 = .ok snapshot ∧
      ¬(secondScan []).2.statistics.Agrees (reported (skipping []) readableProject)) ∧
    ∃ snapshot, (secondScan ["a.c"]).1 = .ok snapshot ∧
      (secondScan ["a.c"]).2.statistics.Agrees (reported (skipping ["a.c"]) readableProject) := by
  constructor
  · obtain ⟨snapshot, hok⟩ := exists_secondScan []
    obtain ⟨-, -, -, hagrees⟩ := statistics_of_reused _ _ _ hok .sequential
    refine ⟨snapshot, hok, fun h => ?_⟩
    have hnone := hagrees.1 h _ List.mem_cons_self
    obtain ⟨-, hcaptured, -⟩ :=
      (failures_reported_eq_nil resolve_project rfl completes_handling_skip).1 hnone
    obtain ⟨hbad, hfault⟩ := mem_failing.1 (failing_project ▸ List.mem_cons_self)
    obtain ⟨r, hr⟩ := hcaptured _ hbad
    cases hr.symm.trans hfault
  · obtain ⟨snapshot, hok⟩ := exists_secondScan ["a.c"]
    obtain ⟨-, -, -, hagrees⟩ := statistics_of_reused _ _ _ hok .sequential
    refine ⟨snapshot, hok, hagrees.2 fun o ho => ?_⟩
    obtain rfl := List.mem_singleton.1 ho
    refine (failures_reported_eq_nil resolve_project rfl completes_handling_skip).2 ?_
    have hselected : (skipping ["a.c"]).selected projectTree [] =
        [[Utf8.encode "src", Utf8.encode "a.c"]] := selected_project_included
    refine ⟨(meetsNoFault_project ["a.c"]).listed, ?_, ?_⟩
    · intro here hmem
      obtain rfl := List.mem_singleton.1 (hselected ▸ hmem)
      exact ⟨_, rfl⟩
    · exact hselected ▸ List.nodup_singleton _

end

end Scanner

end FileCensus
