import FileCensus.Proofs.ChosenFiles
import Mathlib.Data.List.Count

/-!
# Accounting for every file

A scan loses nothing without a failure: every directory that it cannot list, every selected file that
it cannot capture, and every captured file that a later one of the same path replaces adds one. Where
names are texts without a backslash no file replaces another.
-/

namespace FileCensus

/-! ### A walk finds nothing twice -/

def Found.location : Found → Location
  | .file location => location
  | .unlisted location => location

namespace FileTree

variable {t : FileTree} {filter : WalkFilter} {root here : Location} {reachable : Bool} {f : Found}

/-- What a walk finds stands below the place where it began. -/
theorem Finds.location {n : Node} (h : t.Finds filter root reachable here n f) :
    ∃ rest m, f.location = here ++ rest ∧ n.at? rest = some m := by
  obtain ⟨rest, reachable', m, -, hm, hfound⟩ := h
  refine ⟨rest, m, ?_, hm⟩
  cases m with
  | file content modified mode => rw [← Option.some.inj hfound, Found.location]
  | link target => simp [foundAt] at hfound
  | directory mode entries =>
    rw [foundAt] at hfound
    split at hfound
    · simp at hfound
    · rw [← Option.some.inj hfound, Found.location]

theorem nodup_walkEntries {entries : List (Path.Name × Node)} (hnames : (entries.map (·.1)).Nodup)
    (h : ∀ name child, (name, child) ∈ entries →
      (t.walk filter reachable (here ++ [name]) child).Nodup ∧
        ∀ f ∈ t.walk filter reachable (here ++ [name]) child,
          ∃ rest, f.location = here ++ name :: rest) :
    (t.walkEntries filter reachable here (filter.survey here) entries).Nodup := by
  induction entries with
  | nil => exact List.nodup_nil
  | cons e entries ih =>
    obtain ⟨name, node⟩ := e
    obtain ⟨hnew, hnames⟩ := List.nodup_cons.1 hnames
    obtain ⟨hnodup, hlocation⟩ := h name node List.mem_cons_self
    have hrest := ih hnames fun other child hmem => h other child (List.mem_cons_of_mem _ hmem)
    rw [walkEntries]
    split
    · refine List.nodup_append.2 ⟨hnodup, hrest, ?_⟩
      rintro f hf g hg rfl
      -- Both places are below `here`, but go on with different names.
      obtain ⟨other, child, hmem, -, hg⟩ := mem_walkEntries.1 hg
      obtain ⟨rest, hrest⟩ := hlocation f hf
      obtain ⟨rest', hrest'⟩ := (h other child (List.mem_cons_of_mem _ hmem)).2 f hg
      obtain ⟨rfl, -⟩ := List.cons.inj (List.append_cancel_left (hrest.symm.trans hrest'))
      exact hnew (List.mem_map.2 ⟨_, hmem, rfl⟩)
    · exact hrest

theorem nodup_walk {n : Node} (hn : t.root.at? (root ++ here) = some n) (hd : n.Distinct) :
    (t.walk filter reachable here n).Nodup := by
  induction n using Node.induct_entries generalizing reachable here with
  | h n ih =>
    cases n with
    | file content modified mode => exact List.nodup_singleton _
    | link target => exact List.nodup_nil
    | directory mode entries =>
      have hnames := hd [] mode entries rfl
      rw [walk]
      split
      · refine nodup_walkEntries hnames fun name child hmem => ?_
        have hentry := (Node.findEntry_eq_some hnames).2 hmem
        have hchild : t.root.at? (root ++ (here ++ [name])) = some child := by
          rw [← List.append_assoc, Node.at?_concat hn, hentry]
        refine ⟨ih name child hmem hchild (hd.child hentry), fun f hf => ?_⟩
        obtain ⟨rest, -, hlocation, -⟩ := ((mem_walk hchild (hd.child hentry)).1 hf).location
        exact ⟨rest, by rw [hlocation, List.append_assoc, List.singleton_append]⟩
      · exact List.nodup_singleton _

end FileTree

namespace ScanSettings

variable {s : ScanSettings} {t : FileTree} {root here : Location} {reads : Location → Reads}

theorem node_of_mem_found (hd : t.root.Distinct) {f : Found} (h : f ∈ s.found t root) :
    ∃ m, t.root.at? (root ++ f.location) = some m := by
  rw [found] at h
  cases hroot : t.root.at? root with
  | none => simp [hroot] at h
  | some n =>
    simp only [hroot] at h
    split at h
    · have hn : t.root.at? (root ++ []) = some n := by rwa [List.append_nil]
      obtain ⟨rest, m, hlocation, hat⟩ := ((FileTree.mem_walk hn (hd.at? hroot)).1 h).location
      refine ⟨m, ?_⟩
      rw [hlocation, List.nil_append, Node.at?_append, hroot]
      exact hat
    · exact absurd h List.not_mem_nil

theorem nodup_found (hd : t.root.Distinct) : (s.found t root).Nodup := by
  rw [found]
  cases hroot : t.root.at? root with
  | none => exact List.nodup_nil
  | some n =>
    simp only
    split
    · have hn : t.root.at? (root ++ []) = some n := by rwa [List.append_nil]
      exact FileTree.nodup_walk hn (hd.at? hroot)
    · exact List.nodup_nil

theorem nodup_selected (hd : t.root.Distinct) : (s.selected t root).Nodup := by
  have hfile : ∀ f g l, l ∈ Found.file? f → l ∈ Found.file? g → f = g := by
    intro f g l hf hg
    cases f <;> cases g <;> simp_all [Found.file?]
  rw [selected, (List.mergeSort_perm _ _).nodup_iff]
  exact ((nodup_found hd).filterMap hfile).filter _

end ScanSettings

/-! ### Records that replace others -/

theorem Record.length_place {files : List Record} (h : Ascending files) (r : Record) :
    (r.place files).length + (find r.path.text files).isSome.toNat = files.length + 1 := by
  induction files with
  | nil => rfl
  | cons x files ih =>
    have hlater : ∀ y ∈ files, x.path.text < y.path.text := fun _ => List.rel_of_pairwise_cons h
    rw [place, find_cons]
    split
    · rename_i hlt
      have hnone : find r.path.text files = none := by
        rw [find, List.find?_eq_none]
        intro y hy
        have hne : y.path.text ≠ r.path.text := fun he =>
          String.lt_irrefl _ (he ▸ String.lt_trans hlt (hlater y hy))
        simpa using hne
      have hx : x.path.text ≠ r.path.text := fun he => String.lt_irrefl _ (he ▸ hlt)
      simp [hx, hnone]
    · split
      · rename_i heq
        simp [heq]
      · rename_i hne
        have hx : x.path.text ≠ r.path.text := fun he => hne (NormalPath.ext he.symm)
        have hrest := ih h.of_cons
        rw [if_neg hx, List.length_cons, List.length_cons]
        omega

namespace Snapshot

theorem size_insert (s : Snapshot) (r : Record) :
    (s.insert r).2.size + (s.get? r.path.text).isSome.toNat = s.size + 1 :=
  Record.length_place s.ascending r

/-- The paths at which records that are inserted in order replace another one. -/
def replacedPaths : Snapshot → List Record → List String
  | _, [] => []
  | s, r :: rest =>
    ((s.get? r.path.text).toList.map fun _ => r.path.text) ++ replacedPaths (s.insert r).2 rest

theorem collisions_gather (s : Snapshot) (records : List Record) :
    (s.gather records).2 = (s.replacedPaths records).map collision := by
  induction records generalizing s with
  | nil => rfl
  | cons r records ih =>
    rw [gather, replacedPaths, List.map_append, ← ih]
    simp [insert]

/-- Every record is kept or replaced. -/
theorem size_gather (s : Snapshot) (records : List Record) :
    (s.gather records).1.size + (s.replacedPaths records).length = s.size + records.length := by
  induction records generalizing s with
  | nil => rfl
  | cons r records ih =>
    have hinsert := s.size_insert r
    have hrest := ih (s.insert r).2
    have hnow : ((s.get? r.path.text).toList.map fun _ => r.path.text).length =
        (s.get? r.path.text).isSome.toNat := by
      cases s.get? r.path.text <;> rfl
    rw [replacedPaths, List.length_append, hnow, List.length_cons]
    change ((s.insert r).2.gather records).1.size + _ = _
    omega

/-- Of several records of one path all but one are replaced. -/
theorem count_replacedPaths (s : Snapshot) (records : List Record) (path : String) :
    (s.replacedPaths records).count path + ((s.gather records).1.get? path).isSome.toNat =
      (s.get? path).isSome.toNat + records.countP (·.path.text = path) := by
  induction records generalizing s with
  | nil => simp [replacedPaths, gather]
  | cons r records ih =>
    have hrest := ih (s.insert r).2
    have hnow : ((s.get? r.path.text).toList.map fun _ => r.path.text).count path =
        if r.path.text = path then (s.get? path).isSome.toNat else 0 := by
      by_cases hpath : r.path.text = path
      · rw [if_pos hpath, hpath]
        cases s.get? path <;> simp
      · rw [if_neg hpath]
        cases s.get? r.path.text <;> simp [hpath]
    have hinsert : ((s.insert r).2.get? path).isSome.toNat =
        if r.path.text = path then 1 else (s.get? path).isSome.toNat := by
      rw [get?_insert]
      split <;> rfl
    rw [hinsert] at hrest
    rw [replacedPaths, List.count_append, hnow, List.countP_cons]
    change _ + _ + (((s.insert r).2.gather records).1.get? path).isSome.toNat = _
    by_cases hpath : r.path.text = path
    · simp only [hpath, if_true, decide_true] at hrest ⊢
      omega
    · simp only [hpath, if_false, decide_false, Bool.false_eq_true] at hrest ⊢
      omega

end Snapshot

/-! ### The accounts of a scan -/

theorem Fault.message_described (path : String) (kind : IoKind) (text : String) :
    (capture path (.described kind text)).message = "Failed to capture " ++ path ++ ": " ++ text :=
  rfl

theorem collision_eq (path : String) : collision path =
    ⟨path, "Failed to capture " ++ path ++ ": path collides with another file"⟩ := by
  have hend : ": " ++ "path collides with another file" = ": path collides with another file" := by
    decide
  rw [collision, CaptureFailure.of, Fault.message_described, String.append_assoc, hend]

namespace ScanSettings

variable {s : ScanSettings} {t : FileTree} {root here : Location} {reads : Location → Reads}

/-- The failure of a directory that cannot be listed. With ignore files it has no path, and its text
names the directory twice. -/
def unlistedFailure (s : ScanSettings) (root here : Location) : CaptureFailure :=
  let place := Utf8.decodeLossy (root ++ here).path
  let text := "IO error for operation on " ++ place ++ ": Permission denied (os error 13)"
  if s.respectsIgnoreFiles then ⟨"", "Failed to capture : " ++ (place ++ ": " ++ text)⟩
  else ⟨here.recordedPath, "Failed to capture " ++ here.recordedPath ++ ": " ++ text⟩

/-- The failures of the directories that cannot be listed. -/
def walkFailures (s : ScanSettings) (t : FileTree) (root : Location) : List CaptureFailure :=
  (s.found t root).filterMap fun
    | .file _ => none
    | .unlisted here => some (s.unlistedFailure root here)

/-- The failures of the selected files that cannot be captured. -/
def captureFailures (s : ScanSettings) (t : FileTree) (root : Location)
    (reads : Location → Reads) : List CaptureFailure :=
  (s.selected t root).filterMap fun here =>
    match s.capture reads here with
    | .ok _ => none
    | .error fault => some ⟨here.recordedPath, fault.message⟩

theorem of_unlistedFault (here : Location) :
    .of (s.unlistedFault root here).1 (s.unlistedFault root here).2 = s.unlistedFailure root here := by
  have hstart : "Failed to capture " ++ "" ++ ": " = "Failed to capture : " := by decide
  have hend : ": " ++ (IoFault.system .denied).text = ": Permission denied (os error 13)" := by decide
  have htext : ∀ place, "IO error for operation on " ++ place ++ ": " ++
      (IoFault.system .denied).text =
        "IO error for operation on " ++ place ++ ": Permission denied (os error 13)" := by
    intro place
    rw [String.append_assoc, hend]
  rw [unlistedFailure, unlistedFault]
  simp only [shownLocation, toString]
  split
  · rw [CaptureFailure.of, Fault.message_described, hstart, htext]
  · rw [CaptureFailure.of, Fault.message_described, htext]

theorem walkFailures_eq : s.walkFailures t root =
    (s.unlistedFaults t root).map fun u => .of u.1 u.2 := by
  rw [walkFailures, unlistedFaults, List.map_map, List.map_filterMap]
  refine List.filterMap_congr fun f _ => ?_
  cases f with
  | file here => rfl
  | unlisted here => exact congrArg some (of_unlistedFault here).symm

theorem walkFailures_eq_nil :
    s.walkFailures t root = [] ↔ ∀ here, .unlisted here ∉ s.found t root := by
  rw [walkFailures_eq, List.map_eq_nil_iff, unlistedFaults_eq_nil]

theorem length_walkFailures : (s.walkFailures t root).length =
    (s.found t root).countP (· matches .unlisted _) := by
  rw [walkFailures, List.length_filterMap_eq_countP]
  refine List.countP_congr fun f _ => ?_
  cases f <;> rfl

theorem captureFailures_eq_nil : s.captureFailures t root reads = [] ↔
    ∀ here ∈ s.selected t root, ∃ r, s.capture reads here = .ok r := by
  rw [captureFailures, List.filterMap_eq_nil_iff]
  refine forall₂_congr fun here _ => ?_
  cases s.capture reads here <;> simp

theorem captureAll_failures {rs : List Record} {failures : List CaptureFailure}
    (h : s.captureAll t root reads = .ok (rs, failures)) :
    failures = s.walkFailures t root ++ s.captureFailures t root reads := by
  cases hpolicy : s.onFailure with
  | skip =>
    simp only [captureAll, hpolicy] at h
    rw [← (Prod.mk.inj (Except.ok.inj h)).2, walkFailures_eq, captureFailures, List.filterMap_map]
    rfl
  | abort =>
    obtain ⟨hlisted, hcaptured⟩ := (captureAll_eq_ok.1 ⟨failures, h⟩).1 hpolicy
    rw [walkFailures_eq_nil.2 hlisted, captureFailures_eq_nil.2 hcaptured]
    simp only [captureAll, hpolicy, unlistedFaults_eq_nil.2 hlisted] at h
    obtain ⟨records, -, heq⟩ := exists_of_map_ok h
    exact (Prod.mk.inj heq).2.symm

/-- Every selected file is captured or is a failure. -/
theorem length_selected (reads : Location → Reads) : (s.selected t root).length =
    (s.records t root reads).length + (s.captureFailures t root reads).length := by
  rw [records, captureFailures]
  induction s.selected t root with
  | nil => rfl
  | cons here rest ih =>
    rw [List.filterMap_cons, List.filterMap_cons, List.length_cons, ih]
    cases s.capture reads here with
    | ok r => simp only [Except.toOption, List.length_cons]; omega
    | error fault => simp only [Except.toOption, List.length_cons]; omega

theorem countP_records (path : String) : (s.records t root reads).countP (·.path.text = path) =
    (s.selected t root).countP fun here =>
      (s.capture reads here).isOk && here.recordedPath = path := by
  rw [records, List.countP_filterMap]
  refine List.countP_congr fun here _ => ?_
  cases hcapture : s.capture reads here with
  | error fault => simp [Except.toOption, Except.isOk, Except.toBool]
  | ok r => simp [Except.toOption, Except.isOk, Except.toBool, path_capture hcapture]

theorem scanAt_outcome {name : String} {before : Statistics} {result : ScanResult}
    (h : s.scanAt t root reads name before = .ok result) :
    s.Completes t root reads ∧ result.snapshot = s.gathered t root reads name ∧
      result.statistics.captured = result.snapshot.size ∧
      result.statistics.failures = before.failures ++
        (s.walkFailures t root ++ s.captureFailures t root reads) ++
          ((Snapshot.empty name).replacedPaths (s.records t root reads)).map collision := by
  rw [scanAt] at h
  split at h
  · simp at h
  · rename_i rs failures hall
    obtain ⟨hcompletes, rfl⟩ := captureAll_eq_ok.1 ⟨failures, hall⟩
    rw [← captureAll_failures hall, ← Snapshot.collisions_gather, ← Except.ok.inj h]
    exact ⟨hcompletes, rfl, rfl, rfl⟩

end ScanSettings

/-- What the result of a scan says of every file that the scan selected, if nothing failed before. -/
structure ScanResult.AccountsFor (result : ScanResult) (s : ScanSettings) (t : FileTree)
    (root : Location) (reads : Location → Reads) : Prop where
  total : (s.selected t root).length + (s.found t root).countP (· matches .unlisted _) =
    result.snapshot.size + result.statistics.failures.length
  captured : result.statistics.captured = result.snapshot.size
  recorded : ∀ here ∈ s.selected t root, here.recordedPath ∈ result.snapshot.paths ∨
    ∃ failure ∈ result.statistics.failures, failure.path = here.recordedPath
  kept : ∀ path r, result.snapshot.get? path = some r ↔
    ∃ here ∈ s.selected t root, here.recordedPath = path ∧ s.capture reads here = .ok r ∧
      ∀ other ∈ s.selected t root, other.recordedPath = path →
        (∃ r', s.capture reads other = .ok r') → other ≤ here
  replaced : ∃ replaced : List String,
    result.statistics.failures = s.walkFailures t root ++ s.captureFailures t root reads ++
      replaced.map (fun path =>
        ⟨path, "Failed to capture " ++ path ++ ": path collides with another file"⟩) ∧
    ∀ path, replaced.count path = ((s.selected t root).countP fun here =>
      (s.capture reads here).isOk && here.recordedPath = path) - 1

namespace ScanSettings

variable {s : ScanSettings} {t : FileTree} {root here : Location} {reads : Location → Reads}

theorem count_replaced (name path : String) :
    ((Snapshot.empty name).replacedPaths (s.records t root reads)).count path =
      ((s.selected t root).countP fun here =>
        (s.capture reads here).isOk && here.recordedPath = path) - 1 := by
  have hcount := (Snapshot.empty name).count_replacedPaths (s.records t root reads) path
  have hempty : ((Snapshot.empty name).get? path).isSome.toNat = 0 := rfl
  rw [hempty, Nat.zero_add] at hcount
  rw [← countP_records, ← hcount]
  by_cases hnone : (s.records t root reads).countP (·.path.text = path) = 0
  · omega
  · obtain ⟨r, hmem, hpath⟩ := List.countP_pos_iff.1 (Nat.pos_of_ne_zero hnone)
    have hkept : ((s.gathered t root reads name).get? path).isSome := by
      rw [get?_gathered, record?, List.find?_isSome]
      exact ⟨r, List.mem_reverse.2 hmem, hpath⟩
    have hone : (((Snapshot.empty name).gather (s.records t root reads)).1.get? path).isSome.toNat =
        1 := by
      rw [gathered] at hkept
      rw [hkept]
      rfl
    omega

theorem accountsFor_scanAt {name : String} {result : ScanResult}
    (h : s.scanAt t root reads name .none = .ok result) : result.AccountsFor s t root reads := by
  obtain ⟨-, hsnapshot, hcaptured, hfailures⟩ := scanAt_outcome h
  have hnone : Statistics.none.failures = [] := rfl
  rw [hnone, List.nil_append] at hfailures
  have hsize := (Snapshot.empty name).size_gather (s.records t root reads)
  have hempty : (Snapshot.empty name).size = 0 := rfl
  refine ⟨?_, hcaptured, ?_, ?_, ?_⟩
  · rw [hfailures, hsnapshot, gathered, length_selected reads, ← length_walkFailures]
    simp only [List.length_append, List.length_map]
    omega
  · intro here hmem
    cases hcapture : s.capture reads here with
    | ok r =>
      left
      rw [hsnapshot]
      exact mem_paths_gathered.2 ⟨here, hmem, rfl, r, hcapture⟩
    | error fault =>
      right
      refine ⟨⟨here.recordedPath, fault.message⟩, ?_, rfl⟩
      have hfailure : ⟨here.recordedPath, fault.message⟩ ∈ s.captureFailures t root reads :=
        List.mem_filterMap.2 ⟨here, hmem, by rw [hcapture]⟩
      rw [hfailures]
      exact List.mem_append_left _ (List.mem_append_right _ hfailure)
  · intro path r
    rw [hsnapshot, get?_gathered]
    exact record?_eq_some
  · rw [funext collision_eq] at hfailures
    exact ⟨_, hfailures, count_replaced name⟩

/-- A selected file is recorded under its path seen from the target. -/
theorem relative_of_selected (hs : t.Sound) (hmem : here ∈ s.selected t root) :
    Path.relative root.path (root ++ here).path = here.recordedPath := by
  obtain ⟨m, hat⟩ := node_of_mem_found hs.distinct (mem_selected.1 hmem).1
  obtain ⟨habove, hbelow⟩ := List.forall_mem_append.1 (hs.isName hat)
  exact Path.relative_path habove hbelow

/-- Selected files whose names are texts without a backslash have different paths. -/
theorem nodup_recordedPaths (hs : t.Sound)
    (hplain : ∀ here ∈ s.selected t root, ∀ name ∈ here, Path.IsPlain name) :
    ((s.selected t root).map Location.recordedPath).Nodup := by
  have hnames : ∀ here ∈ s.selected t root, ∀ name ∈ here, Path.IsName name ∧ Path.IsPlain name := by
    intro here hmem name hname
    obtain ⟨m, hat⟩ := node_of_mem_found hs.distinct (mem_selected.1 hmem).1
    exact ⟨hs.isName hat name (List.mem_append_right _ hname), hplain here hmem name hname⟩
  refine (nodup_selected hs.distinct).map_on fun here hmem other hother he => ?_
  exact Location.recordedPath_inj (hnames here hmem) (hnames other hother) he

/-- A scan accounts for every file that it selects, under its path seen from the target. If it must not
leave out anything and the names of the files are texts without a backslash, there are no failures and
each file has its own record. -/
theorem scanWith_accounts {operations : Location → Reads} {name : String} {result : ScanResult}
    (hs : t.Sound) (h : s.scanWith t operations name .none = .ok result) :
    ∃ root, t.resolve .existing s.target = .ok root ∧
      result.AccountsFor s t root (fun here => operations (root ++ here)) ∧
      (∀ here ∈ s.selected t root,
        Path.relative root.path (root ++ here).path = here.recordedPath) ∧
      (s.onFailure = .abort →
        (∀ here ∈ s.selected t root, ∀ name ∈ here, Path.IsPlain name) →
          result.statistics.failures = [] ∧
            result.snapshot.paths.Perm ((s.selected t root).map Location.recordedPath)) := by
  rw [scanWith] at h
  split at h
  · simp at h
  · rename_i root hroot
    have haccounts := accountsFor_scanAt h
    refine ⟨root, hroot, haccounts, fun here hmem => relative_of_selected hs hmem,
      fun habort hplain => ?_⟩
    obtain ⟨hcompletes, hsnapshot, -, -⟩ := scanAt_outcome h
    obtain ⟨hlisted, hcaptured⟩ := hcompletes habort
    have hdifferent := nodup_recordedPaths hs hplain
    have hpaths : result.snapshot.paths.Perm ((s.selected t root).map Location.recordedPath) := by
      rw [List.perm_ext_iff_of_nodup (result.snapshot.paths_ascending.imp String.ne_of_lt) hdifferent]
      intro path
      rw [hsnapshot, mem_paths_gathered, List.mem_map]
      constructor
      · rintro ⟨here, hmem, hpath, -⟩
        exact ⟨here, hmem, hpath⟩
      · rintro ⟨here, hmem, hpath⟩
        exact ⟨here, hmem, hpath, hcaptured here hmem⟩
    have hsize : result.snapshot.size = (s.selected t root).length := by
      simpa [Snapshot.paths, Snapshot.size] using hpaths.length_eq
    have htotal := haccounts.total
    rw [← length_walkFailures, walkFailures_eq_nil.2 hlisted, List.length_nil] at htotal
    refine ⟨List.eq_nil_of_length_eq_zero ?_, hpaths⟩
    omega

theorem exists_scan_project (includePatterns : List String) : ∃ result,
    (projectSettings includePatterns).scanWith projectTree (fun _ => projectReads) "" .none =
      .ok result := by
  have hfault := meetsNoFault_project includePatterns
  have hscan : ((projectSettings includePatterns).scanAt projectTree [] (fun _ => projectReads) ""
      .none).map ScanResult.snapshot = .ok _ :=
    scanAt_eq_ok.2 ⟨fun _ => ⟨hfault.listed, hfault.captured⟩, rfl⟩
  obtain ⟨result, hresult, -⟩ := exists_of_map_ok hscan
  refine ⟨result, ?_⟩
  have htarget : (projectSettings includePatterns).target = Utf8.encode "." := rfl
  rw [scanWith, htarget, resolve_project]
  exact hresult

/-- Two of the three files of one path are failures. Where only one of them is included, it has its
record. -/
theorem scanWith_accounts_project :
    (∃ result, (projectSettings []).scanWith projectTree (fun _ => projectReads) "" .none =
        .ok result ∧
      result.statistics.failures.count
        ⟨"src/a.c", "Failed to capture src/a.c: path collides with another file"⟩ = 2) ∧
    ∃ result, (projectSettings ["a.c"]).scanWith projectTree (fun _ => projectReads) "" .none =
        .ok result ∧
      result.statistics.failures = [] ∧ result.snapshot.paths = ["src/a.c"] := by
  constructor
  · obtain ⟨result, hresult⟩ := exists_scan_project []
    obtain ⟨root, hroot, haccounts, -, -⟩ := scanWith_accounts sound_project hresult
    obtain rfl : [] = root := Except.ok.inj (resolve_project.symm.trans hroot)
    obtain ⟨replaced, hfailures, hcount⟩ := haccounts.replaced
    have hfault := meetsNoFault_project []
    rw [walkFailures_eq_nil.2 hfault.listed, captureFailures_eq_nil.2 hfault.captured] at hfailures
    have hinjective : Function.Injective fun path => (⟨path, "Failed to capture " ++ path ++
        ": path collides with another file"⟩ : CaptureFailure) :=
      fun _ _ h => congrArg CaptureFailure.path h
    refine ⟨result, hresult, ?_⟩
    rw [hfailures]
    refine (List.count_map_of_injective replaced _ hinjective "src/a.c").trans ?_
    rw [hcount, selected_project]
    decide +kernel
  · obtain ⟨result, hresult⟩ := exists_scan_project ["a.c"]
    obtain ⟨root, hroot, -, -, hplain⟩ := scanWith_accounts sound_project hresult
    obtain rfl : [] = root := Except.ok.inj (resolve_project.symm.trans hroot)
    rw [selected_project_included] at hplain
    have hnames : ∀ here ∈ [[Utf8.encode "src", Utf8.encode "a.c"]], ∀ name ∈ here,
        Path.IsPlain name := by
      simp only [List.forall_mem_cons, List.not_mem_nil, false_implies, implies_true, and_true]
      exact ⟨⟨"src", rfl, by decide⟩, "a.c", rfl, by decide⟩
    obtain ⟨hnone, hpaths⟩ := hplain rfl hnames
    refine ⟨result, hresult, hnone, List.perm_singleton.1 (hpaths.trans ?_)⟩
    decide +kernel

end ScanSettings

end FileCensus
