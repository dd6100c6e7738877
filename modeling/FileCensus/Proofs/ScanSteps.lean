import FileCensus.Proofs.FailurePolicies
import FileCensus.Scanner

/-!
# The steps of a scan

Every step of a scan ends in the same way whatever the statistics before it, and only adds failures to
them. Step by step a scan therefore comes to what it comes to as a whole, if its workers finish the files
in their order, and then a scan that fails leaves the statistics alone.
-/

namespace FileCensus

namespace Scanning

variable {α β : Type} {part : Scanning α} {next : α → Scanning β} {a : α} {fault : Fault}
  {outcome : Except Fault β} {failures more : List CaptureFailure}

/-- Whatever the statistics before it, a part of a scan ends in this way and adds these failures. -/
def Adds (part : Scanning α) (outcome : Except Fault α) (failures : List CaptureFailure) : Prop :=
  ∀ before, part.run.run before =
    (outcome, { before with failures := before.failures ++ failures })

theorem run_bind (part : Scanning α) (next : α → Scanning β) (before : Statistics) :
    (part >>= next).run.run before =
      match part.run.run before with
      | (.ok a, after) => (next a).run.run after
      | (.error fault, after) => (.error fault, after) := by
  rw [ExceptT.run_bind, StateT.run_bind]
  rcases part.run.run before with ⟨_ | _, _⟩ <;> rfl

theorem adds_pure (a : α) : Adds (pure a) (.ok a) [] := by
  intro before
  rw [List.append_nil]
  rfl

theorem adds_throw (fault : Fault) : Adds (throw fault : Scanning α) (.error fault) [] := by
  intro before
  rw [List.append_nil]
  rfl

theorem adds_record (failure : CaptureFailure) : (record failure).Adds (.ok ()) [failure] :=
  fun _ => rfl

theorem Adds.bind (h : part.Adds (.ok a) failures) (hnext : (next a).Adds outcome more) :
    (part >>= next).Adds outcome (failures ++ more) := by
  intro before
  rw [run_bind, h before]
  exact (hnext _).trans (by rw [List.append_assoc])

theorem Adds.bind_error (h : part.Adds (.error fault) failures) :
    (part >>= next).Adds (.error fault) failures := by
  intro before
  rw [run_bind, h before]

theorem Adds.bind_pure {f : α → β} (h : part.Adds (.ok a) failures) :
    (part >>= fun a => pure (f a)).Adds (.ok (f a)) failures := by
  have hboth : (part >>= fun a => pure (f a)).Adds (.ok (f a)) (failures ++ []) :=
    h.bind (adds_pure (f a))
  rwa [List.append_nil] at hboth

/-- Where there are no faults to end a scan, each of them is a failure. -/
theorem adds_meetAll {policy : FailurePolicy} {faults : List (String × Fault)}
    (h : policy = .abort → faults = []) :
    (meetAll policy faults).Adds (.ok ()) (faults.map fun u => .of u.1 u.2) := by
  induction faults with
  | nil => exact adds_pure ()
  | cons u faults ih =>
    cases policy with
    | abort => cases h rfl
    | skip => exact (adds_record (.of u.1 u.2)).bind (ih nofun)

theorem adds_meetAll_abort (u : String × Fault) (faults : List (String × Fault)) :
    (meetAll .abort (u :: faults)).Adds (.error u.2) [] :=
  (adds_throw u.2).bind_error

theorem adds_gather (s : Snapshot) (records : List Record) :
    (gather s records).Adds (.ok (s.gather records).1) (s.gather records).2 := by
  induction records generalizing s with
  | nil => exact adds_pure s
  | cons r records ih =>
    have hrest := ih (s.insert r).2
    rw [gather, Snapshot.gather]
    cases hreplaced : (s.insert r).1 with
    | none => simpa [hreplaced] using hrest
    | some replaced => simpa [hreplaced] using (adds_record (collision r.path.text)).bind hrest

end Scanning

/-! ### Scans as a whole -/

namespace ScanSettings

variable {s : ScanSettings} {o : Occasion} {root : Location} {schedule : Schedule}
  {reads : Location → Reads} {t : FileTree} {files : List Location}

theorem captureFaults_eq_nil : s.captureFaults reads files = [] ↔
    ∀ here ∈ files, ∃ r, s.capture reads here = .ok r := by
  rw [captureFaults, List.filterMap_eq_nil_iff]
  refine forall₂_congr fun here _ => ?_
  cases s.capture reads here <;> simp

theorem perm_captureFaults (s : ScanSettings) (reads : Location → Reads) (schedule : Schedule)
    (files : List Location) :
    (s.captureFaults reads (schedule.order files)).Perm (s.captureFaults reads files) :=
  (schedule.perm files).filterMap _

theorem map_captureFaults : (s.captureFaults reads (s.selected t root)).map
    (fun u => CaptureFailure.of u.1 u.2) = s.captureFailures t root reads := by
  rw [captureFaults, captureFailures, List.map_filterMap]
  refine List.filterMap_congr fun here _ => ?_
  cases s.capture reads here <;> rfl

theorem adds_collect (h : s.onFailure = .abort → s.unlistedFaults t root = []) :
    (s.collect t root).Adds (.ok (s.selected t root)) (s.walkFailures t root) := by
  rw [walkFailures_eq]
  exact (Scanning.adds_meetAll h).bind_pure

theorem adds_collect_abort (h : s.onFailure = .abort) {u : String × Fault}
    {faults : List (String × Fault)} (hunlisted : s.unlistedFaults t root = u :: faults) :
    (s.collect t root).Adds (.error u.2) [] := by
  rw [collect, h, hunlisted]
  exact (Scanning.adds_meetAll_abort u faults).bind_error

theorem adds_captureEach
    (h : s.onFailure = .abort → s.captureFaults reads (schedule.order files) = []) :
    (s.captureEach reads schedule files).Adds
      (.ok (files.filterMap fun here => (s.capture reads here).toOption))
      ((s.captureFaults reads (schedule.order files)).map fun u => .of u.1 u.2) :=
  (Scanning.adds_meetAll h).bind_pure

theorem adds_captureEach_abort (h : s.onFailure = .abort) {u : String × Fault}
    {faults : List (String × Fault)}
    (huncaptured : s.captureFaults reads (schedule.order files) = u :: faults) :
    (s.captureEach reads schedule files).Adds (.error u.2) [] := by
  rw [captureEach, h, huncaptured]
  exact (Scanning.adds_meetAll_abort u faults).bind_error

/-- Without workers a scan that may leave out directories has added their failures. -/
theorem adds_assembleAt_noWorkers (h : s.onFailure = .abort → s.unlistedFaults o.tree root = [])
    {text : String} (hworkers : o.workers = .error text) :
    (s.assembleAt o root).Adds (.error (noWorkers text)) (s.walkFailures o.tree root) := by
  have hstop : (s.collect o.tree root >>= fun _ => throw (noWorkers text) : Scanning Snapshot).Adds
      (.error (noWorkers text)) (s.walkFailures o.tree root ++ []) :=
    (adds_collect h).bind (Scanning.adds_throw (noWorkers text))
  rw [assembleAt, hworkers]
  rwa [List.append_nil] at hstop

theorem adds_assembleAt_unlisted (h : s.onFailure = .abort) {u : String × Fault}
    {faults : List (String × Fault)} (hunlisted : s.unlistedFaults o.tree root = u :: faults) :
    (s.assembleAt o root).Adds (.error u.2) [] :=
  (adds_collect_abort h hunlisted).bind_error

theorem adds_assembleAt_uncaptured (h : s.onFailure = .abort)
    (hlisted : s.unlistedFaults o.tree root = []) (hworkers : o.workers = .ok schedule)
    {u : String × Fault} {faults : List (String × Fault)}
    (huncaptured : s.captureFaults (o.readsAt root) (schedule.order (s.selected o.tree root)) =
      u :: faults) :
    (s.assembleAt o root).Adds (.error u.2) [] := by
  have hwalk : s.walkFailures o.tree root = [] :=
    walkFailures_eq_nil.2 (unlistedFaults_eq_nil.1 hlisted)
  have hcollect := adds_collect (s := s) fun _ => hlisted
  rw [hwalk] at hcollect
  rw [assembleAt, hworkers]
  exact hcollect.bind (adds_captureEach_abort h huncaptured).bind_error

/-- The failures that a scan adds which gives a snapshot. -/
def addedFailures (s : ScanSettings) (o : Occasion) (root : Location) (schedule : Schedule) :
    List CaptureFailure :=
  s.walkFailures o.tree root ++
    (((s.captureFaults (o.readsAt root) (schedule.order (s.selected o.tree root))).map
        fun u => .of u.1 u.2) ++
      ((Snapshot.empty o.name).replacedPaths (s.records o.tree root (o.readsAt root))).map collision)

theorem adds_assembleAt (h : s.Completes o.tree root (o.readsAt root))
    (hworkers : o.workers = .ok schedule) :
    (s.assembleAt o root).Adds (.ok (s.gathered o.tree root (o.readsAt root) o.name))
      (s.addedFailures o root schedule) := by
  have hlisted : s.onFailure = .abort → s.unlistedFaults o.tree root = [] :=
    fun habort => unlistedFaults_eq_nil.2 (h habort).1
  have hcaptured : s.onFailure = .abort →
      s.captureFaults (o.readsAt root) (schedule.order (s.selected o.tree root)) = [] :=
    fun habort => captureFaults_eq_nil.2 fun here hmem =>
      (h habort).2 here ((schedule.perm _).mem_iff.1 hmem)
  have hgather := Scanning.adds_gather (.empty o.name) (s.records o.tree root (o.readsAt root))
  rw [Snapshot.collisions_gather] at hgather
  rw [assembleAt, hworkers]
  exact (adds_collect hlisted).bind ((adds_captureEach hcaptured).bind hgather)

/-- A scan leaves out only what it may, or there is a first fault that ends it. -/
theorem completes_or (s : ScanSettings) (t : FileTree) (root : Location)
    (reads : Location → Reads) : s.Completes t root reads ∨ s.onFailure = .abort ∧
    ((∃ u faults, s.unlistedFaults t root = u :: faults) ∨
      s.unlistedFaults t root = [] ∧
        ∃ u faults, s.captureFaults reads (s.selected t root) = u :: faults) := by
  by_cases h : s.Completes t root reads
  · exact .inl h
  · simp only [Completes, Classical.not_imp, ← unlistedFaults_eq_nil, ← captureFaults_eq_nil] at h
    obtain ⟨habort, hfaults⟩ := h
    refine .inr ⟨habort, ?_⟩
    cases hunlisted : s.unlistedFaults t root with
    | cons u faults => exact .inl ⟨u, faults, rfl⟩
    | nil => exact .inr ⟨rfl, List.exists_cons_of_ne_nil fun hnone => hfaults ⟨hunlisted, hnone⟩⟩

/-- A scan has workers and leaves out only what it may, or it fails. -/
theorem assemble_cases (s : ScanSettings) (o : Occasion) :
    (∃ root schedule, o.tree.resolve .existing s.target = .ok root ∧ o.workers = .ok schedule ∧
      s.Completes o.tree root (o.readsAt root)) ∨
    ∃ fault failures, (s.assemble o).Adds (.error fault) failures := by
  rw [assemble]
  cases o.tree.resolve .existing s.target with
  | error cause => exact .inr ⟨_, _, Scanning.adds_throw (.io cause)⟩
  | ok root =>
    rcases completes_or s o.tree root (o.readsAt root) with
      h | ⟨habort, ⟨u, faults, hunlisted⟩ | ⟨hlisted, u, faults, hfaults⟩⟩
    · cases hworkers : o.workers with
      | ok schedule => exact .inl ⟨root, schedule, rfl, rfl, h⟩
      | error text =>
        have hlisted := fun habort => unlistedFaults_eq_nil.2 (h habort).1
        exact .inr ⟨_, _, adds_assembleAt_noWorkers hlisted hworkers⟩
    · exact .inr ⟨_, _, adds_assembleAt_unlisted habort hunlisted⟩
    · cases hworkers : o.workers with
      | error text =>
        exact .inr ⟨_, _, adds_assembleAt_noWorkers (fun _ => hlisted) hworkers⟩
      | ok schedule =>
        -- In whatever order the workers finish, they meet some fault.
        have hne : s.captureFaults (o.readsAt root) (schedule.order (s.selected o.tree root)) ≠ [] := by
          intro hnone
          have hperm := perm_captureFaults s (o.readsAt root) schedule (s.selected o.tree root)
          rw [hnone, hfaults] at hperm
          exact List.cons_ne_nil _ _ hperm.nil_eq.symm
        obtain ⟨first, rest, huncaptured⟩ := List.exists_cons_of_ne_nil hne
        exact .inr ⟨_, _, adds_assembleAt_uncaptured habort hlisted hworkers huncaptured⟩

theorem adds_assemble (hroot : o.tree.resolve .existing s.target = .ok root)
    (hworkers : o.workers = .ok schedule) (h : s.Completes o.tree root (o.readsAt root)) :
    (s.assemble o).Adds (.ok (s.gathered o.tree root (o.readsAt root) o.name))
      (s.addedFailures o root schedule) := by
  rw [assemble, hroot]
  exact adds_assembleAt h hworkers

/-- A scan ends in one way and adds the same failures after any earlier scans. -/
theorem exists_adds (s : ScanSettings) (o : Occasion) :
    ∃ outcome failures, (s.assemble o).Adds outcome failures := by
  rcases assemble_cases s o with ⟨root, schedule, hroot, hworkers, h⟩ | ⟨fault, failures, h⟩
  · exact ⟨_, _, adds_assemble hroot hworkers h⟩
  · exact ⟨_, _, h⟩

end ScanSettings

/-- The statistics after one more scan. -/
def Statistics.next (before : Statistics) (outcome : Except Fault Snapshot)
    (failures : List CaptureFailure) : Statistics where
  captured :=
    match outcome with
    | .ok snapshot => snapshot.size
    | .error _ => before.captured
  failures := before.failures ++ failures

namespace ScanSettings

variable {s : ScanSettings} {o : Occasion} {outcome : Except Fault Snapshot}
  {failures : List CaptureFailure}

theorem run_scanning (h : (s.assemble o).Adds outcome failures) (before : Statistics) :
    (s.scanning o).run.run before = (outcome, before.next outcome failures) := by
  rw [scanning, Scanning.run_bind, h before]
  cases outcome <;> rfl

theorem firstFault_capture (reads : Location → Reads) (files : List Location) :
    firstFault (files.map (s.capture reads)) =
      match s.captureFaults reads files with
      | [] => .ok (files.filterMap fun here => (s.capture reads here).toOption)
      | u :: _ => .error u.2 := by
  induction files with
  | nil => rfl
  | cons here files ih =>
    rw [List.map_cons, captureFaults, List.filterMap_cons, List.filterMap_cons, ← captureFaults]
    cases s.capture reads here with
    | error fault => rfl
    | ok r =>
      simp only [firstFault, ih]
      cases s.captureFaults reads files <;> rfl

theorem scanAt_unlisted {t : FileTree} {root : Location} {reads : Location → Reads}
    (h : s.onFailure = .abort) {u : String × Fault} {faults : List (String × Fault)}
    (hunlisted : s.unlistedFaults t root = u :: faults) (name : String) (before : Statistics) :
    s.scanAt t root reads name before = .error u.2 := by
  rw [scanAt, captureAll, h, hunlisted]

theorem scanAt_uncaptured {t : FileTree} {root : Location} {reads : Location → Reads}
    (h : s.onFailure = .abort) (hlisted : s.unlistedFaults t root = []) {u : String × Fault}
    {faults : List (String × Fault)}
    (huncaptured : s.captureFaults reads (s.selected t root) = u :: faults) (name : String)
    (before : Statistics) : s.scanAt t root reads name before = .error u.2 := by
  have hfirst := firstFault_capture (s := s) reads (s.selected t root)
  rw [huncaptured] at hfirst
  have hall : s.captureAll t root reads = .error u.2 := by
    simp only [captureAll, h, hlisted, List.map_map]
    exact congrArg (Except.map fun records => (records, [])) hfirst
  rw [scanAt, hall]

theorem addedFailures_sequential (root : Location) : s.addedFailures o root .sequential =
    s.walkFailures o.tree root ++ s.captureFailures o.tree root (o.readsAt root) ++
      ((Snapshot.empty o.name).replacedPaths (s.records o.tree root (o.readsAt root))).map
        collision := by
  rw [addedFailures, ← map_captureFaults, List.append_assoc]
  rfl

theorem perm_addedFailures (root : Location) (schedule again : Schedule) :
    (s.addedFailures o root schedule).Perm (s.addedFailures o root again) :=
  have hcaptured :=
    (perm_captureFaults s _ schedule _).trans (perm_captureFaults s _ again _).symm
  ((hcaptured.map _).append_right _).append_left _

/-- Where the workers finish the files in their order, the steps of a scan come to the scan as a whole,
and a scan that fails leaves the statistics alone. -/
theorem run_inOrder (s : ScanSettings) (t : FileTree) (operations : Location → Reads)
    (name : String) (before : Statistics) :
    (s.scanning (.inOrder t operations name)).run.run before =
      match s.scanWith t operations name before with
      | .ok result => (.ok result.snapshot, result.statistics)
      | .error fault => (.error fault, before) := by
  have hfailed : ∀ fault, (s.assemble (.inOrder t operations name)).Adds (.error fault) [] →
      (s.scanning (.inOrder t operations name)).run.run before = (.error fault, before) := by
    intro fault h
    rw [run_scanning h]
    simp [Statistics.next]
  rw [scanWith]
  cases hroot : t.resolve .existing s.target with
  | error cause =>
    refine hfailed _ ?_
    have hassemble : s.assemble (.inOrder t operations name) = throw (.io cause) := by
      simp only [assemble, Occasion.inOrder, hroot]
    exact hassemble ▸ Scanning.adds_throw (.io cause)
  | ok root =>
    have hassemble : s.assemble (.inOrder t operations name) =
        s.assembleAt (.inOrder t operations name) root := by
      simp only [assemble, Occasion.inOrder, hroot]
    rcases completes_or s t root fun here => operations (root ++ here) with
      h | ⟨habort, ⟨u, faults, hunlisted⟩ | ⟨hlisted, u, faults, hfaults⟩⟩
    · have hadds := adds_assemble (o := .inOrder t operations name) hroot rfl h
      simp only [run_scanning hadds, scanAt_of_completes h]
      rw [addedFailures_sequential, Statistics.next, account, List.append_assoc before.failures]
      rfl
    · simp only [scanAt_unlisted habort hunlisted]
      exact hfailed _ (hassemble ▸ adds_assembleAt_unlisted habort hunlisted)
    · have hworkers : (Occasion.inOrder t operations name).workers = .ok .sequential := rfl
      simp only [scanAt_uncaptured habort hlisted hfaults]
      exact hfailed _ (hassemble ▸ adds_assembleAt_uncaptured habort hlisted hworkers hfaults)

end ScanSettings

end FileCensus
