import FileCensus.Proofs.DocumentRoundTrip
import FileCensus.Proofs.SecondScan
import FileCensus.Session

/-!
# Comparing with a snapshot that was just taken

A snapshot of a directory is taken, and then the written file is compared with the directory. The
second scan is not told of the output. The two sides are reported as equal if and only if the file can
be opened and keeps every time, and the second scan, where it selects that file, records under its
path what the first scan recorded.
-/

namespace FileCensus

open ScanSettings (localReads)
open Utf8 (encode)

theorem CheckOptions.settings_eq_ok {o : CheckOptions} {target : Bytes} {settings : ScanSettings}
    (h : o.settings target = .ok settings) :
    settings.target = target ∧ settings.output = none ∧
      settings.respectsIgnoreFiles = o.respectsIgnoreFiles ∧
      ∀ other, o.settings other = .ok { settings with target := other } := by
  rw [CheckOptions.settings] at h
  split at h
  · simp at h
  · rename_i rules hrules
    obtain rfl := Except.ok.inj h
    exact ⟨rfl, rfl, rfl, fun other => by rw [CheckOptions.settings, hrules]⟩

namespace FileTree

theorem isDirectory_iff {t : FileTree} {path : Bytes} :
    t.isDirectory path ↔ ∃ l mode entries, t.resolve .existing path = .ok l ∧
      t.root.at? l = some (.directory mode entries) := by
  rw [isDirectory, node]
  cases t.resolve .existing path with
  | error fault => simp
  | ok l =>
    cases hat : t.root.at? l with
    | none => simp [hat]
    | some n => cases n <;> simp [hat, Node.isDirectory]

theorem scanChecked_eq_ok {t : FileTree} {settings : ScanSettings} {name : String}
    {snapshot : Snapshot} :
    t.scanChecked settings name = .ok snapshot ↔
      t.isDirectory settings.target ∧ settings.threads ≠ 0 ∧
        ∃ root, t.resolve .existing settings.target = .ok root ∧
          settings.Completes t root (localReads t root) ∧
          settings.gathered t root (localReads t root) name = snapshot := by
  have hvalid : settings.validate t = .ok () ↔
      t.isDirectory settings.target ∧ settings.threads ≠ 0 := by
    rw [ScanSettings.validate]
    by_cases hdir : t.isDirectory settings.target
    · by_cases hthreads : settings.threads = 0 <;> simp [hdir, hthreads]
    · simp [hdir]
  rw [← and_assoc, ← hvalid, scanChecked]
  cases settings.validate t with
  | error fault => simp
  | ok _ =>
    rw [ScanSettings.scan]
    cases t.resolve .existing settings.target with
    | error cause => simp [Except.map]
    | ok root => simp [ScanSettings.scanAt_eq_ok]

variable {before after : FileTree} {location : Location} {path content : Bytes} {modified : Int}
variable {mode : Mode}

/-- The path that a file was written to names the file. -/
theorem node_written (hw : Rewritten before after location (.file content modified mode))
    (h : before.resolve .creatable path = .ok location) :
    after.node path = .ok (.file content modified mode) := by
  obtain ⟨hzero, hne, hlong, hleads⟩ := resolve_eq_ok.1 h
  have hagain := hleads.rewritten hw (fun target => nofun) (.inl rfl)
  rw [← hw.cwd] at hagain
  rw [node, resolve_eq_ok.2 ⟨hzero, hne, hlong, hagain⟩]
  simp only [hw.written]

theorem load_written (hw : Rewritten before after location (.file content modified mode))
    (h : before.resolve .creatable path = .ok location) {snapshot : Snapshot} :
    after.load path = .ok snapshot ↔
      (∃ source, after.openPath path = .ok source) ∧ Document.readBytes content = .ok snapshot := by
  have hopen : after.openPath path = after.openNode (.file content modified mode) := by
    rw [openPath, node_written hw h]
  rw [load, hopen, openNode]
  by_cases hread : after.allows mode .read
  · simp [hread, Document.readBytes]
  · simp [hread]

end FileTree

theorem Snapshot.get?_named (s : Snapshot) (name path : String) :
    (s.named name).get? path = s.get? path := by
  rw [named]
  split <;> rfl

namespace Session

theorem status_take {s : Session} {directory output : String} {name : Option String}
    {options : CheckOptions} (h : (s.perform (.take directory output name options)).status = 0) :
    s.take directory output name options =
      .ok (s.perform (.take directory output name options)).tree := by
  rw [perform] at h ⊢
  cases htake : s.take directory output name options with
  | error fault => simp [htake, fail, finish] at h
  | ok tree => rfl

theorem status_compare {s : Session} {left right : String} {format : ReportFormat}
    {options : CheckOptions} :
    (s.perform (.compare left right format options)).status = 0 ↔
      ∃ report, s.compare left right options = .ok report ∧ report.isEqual := by
  rw [perform]
  cases s.compare left right options with
  | error fault => simp [fail, finish]
  | ok report => simp [finish]

theorem take_eq_ok {s : Session} {directory output : String} {name : Option String}
    {options : CheckOptions} {tree : FileTree} :
    s.take directory output name options = .ok tree ↔
      ∃ settings snapshot, options.settings (encode directory) = .ok settings ∧
        s.tree.scanChecked { settings with output := some (encode output) }
          (name.getD (s.tree.defaultName directory)) = .ok snapshot ∧
        s.tree.write (encode output) (Document.writeBytes s.origin snapshot) s.now = .ok tree := by
  rw [take]
  cases options.settings (encode directory) with
  | error fault => simp
  | ok settings =>
    simp only [Except.ok.injEq, exists_and_left, exists_eq_left']
    cases s.tree.scanChecked { settings with output := some (encode output) }
      (name.getD (s.tree.defaultName directory)) with
    | error fault => simp
    | ok snapshot =>
      simp only [Except.ok.injEq, exists_eq_left', mapError_eq_ok]

/-- A comparison of a file with a directory that reports no difference. -/
theorem compare_file_directory {s : Session} {left right : String} {options : CheckOptions}
    {settings : ScanSettings} (hsettings : options.settings (encode right) = .ok settings)
    (hleft : s.tree.isDirectory (encode left) = false) (hright : s.tree.isDirectory (encode right)) :
    (∃ report, s.compare left right options = .ok report ∧ report.isEqual) ↔
      ∃ l r, s.tree.load (encode left) = .ok l ∧ s.tree.scanChecked settings right = .ok r ∧
        ∀ path, Option.Rel settings.policy.Agree (l.get? path) (r.get? path) := by
  obtain ⟨-, -, -, hothers⟩ := CheckOptions.settings_eq_ok hsettings
  simp only [compare, hothers (encode left), FileTree.side, hleft, hright, hsettings,
    Bool.false_eq_true, if_false, if_true]
  cases hload : s.tree.load (encode left) with
  | error fault => simp [Except.map]
  | ok l =>
    cases hscan : s.tree.scanChecked settings right with
    | error fault => simp [Except.map]
    | ok r =>
      simp only [Except.map, Except.ok.injEq, exists_eq_left', Policy.isEqual_compareSnapshots,
        Snapshot.get?_named]
      constructor
      · intro h
        exact ⟨l, r, rfl, rfl, h⟩
      · rintro ⟨_, _, rfl, rfl, h⟩
        exact h

/-- A directory compares as equal to a snapshot that was written to a file if and only if the file can
be opened, every recorded time is read back, and a scan repeats the snapshot. -/
theorem status_compare_written {before : FileTree} {later : Session} {directory output : String}
    {options : CheckOptions} {format : ReportFormat} {settings : ScanSettings}
    {root location : Location} {origin : Document.Origin} {snapshot : Snapshot} {modified : Int}
    {mode mode' : Mode} {entries : List (Path.Name × Node)}
    (hw : FileTree.Rewritten before later.tree location
      (.file (Document.writeBytes origin snapshot) modified mode))
    (hlocation : before.resolve .creatable (encode output) = .ok location)
    (hsettings : options.settings (encode directory) = .ok settings)
    (hthreads : settings.threads ≠ 0)
    (hroot : before.resolve .existing (encode directory) = .ok root)
    (hat : before.root.at? root = some (.directory mode' entries)) :
    (later.perform (.compare output directory format options)).status = 0 ↔
      (∃ source, later.tree.openPath (encode output) = .ok source) ∧
      Record.firstTimeFault? 1 snapshot.files = none ∧
      settings.Repeats later.tree root snapshot := by
  obtain ⟨htarget, -, -, -⟩ := CheckOptions.settings_eq_ok hsettings
  have hread : ∀ l, Document.readBytes (Document.writeBytes origin snapshot) = .ok l ↔
      Record.firstTimeFault? 1 snapshot.files = none ∧ snapshot = l := by
    intro l
    rw [Document.readBytes_writeBytes]
    cases Record.firstTimeFault? 1 snapshot.files <;> simp
  have hfile : later.tree.isDirectory (encode output) = false := by
    rw [FileTree.isDirectory, FileTree.node_written hw hlocation]
    rfl
  have hagain := (hw.filesDiffer rfl).resolve_directory hroot hat
  have hdir : later.tree.isDirectory (encode directory) := by
    obtain ⟨entries', hafter⟩ := hw.directory hat
    exact FileTree.isDirectory_iff.2 ⟨root, mode', entries', hagain, hafter⟩
  have hscanned : ∀ r, later.tree.scanChecked settings directory = .ok r ↔
      settings.Completes later.tree root (localReads later.tree root) ∧
        settings.gathered later.tree root (localReads later.tree root) directory = r := by
    intro r
    rw [FileTree.scanChecked_eq_ok, htarget, hagain]
    constructor
    · rintro ⟨-, -, found, hfound, h⟩
      rwa [← Except.ok.inj hfound] at h
    · intro h
      exact ⟨hdir, hthreads, root, rfl, h⟩
  rw [status_compare, compare_file_directory hsettings hfile hdir]
  simp only [FileTree.load_written hw hlocation, hread, hscanned]
  constructor
  · rintro ⟨_, _, ⟨hopens, hlegible, rfl⟩, ⟨hsecond, rfl⟩, hagree⟩
    simp only [ScanSettings.get?_gathered] at hagree
    exact ⟨hopens, hlegible, hsecond, hagree⟩
  · rintro ⟨hopens, hlegible, hsecond, hagree⟩
    refine ⟨snapshot, _, ⟨hopens, hlegible, rfl⟩, ⟨hsecond, rfl⟩, ?_⟩
    intro path
    rw [ScanSettings.get?_gathered]
    exact hagree path

/-- A directory compares as equal to the file that its snapshot was just written to if and only if the
file can be opened, every recorded time is read back, and the second scan repeats the snapshot. Unless
an ignore file was written, the second scan can fail to do so only where it selects the written file. -/
theorem status_compare_taken (s later : Session) {words words' : List String}
    {directory output : String} {name : Option String} {options : CheckOptions}
    {format : ReportFormat} {verbose verbose' : Bool} (hsound : s.tree.Sound)
    (htake : CommandLine.read words = .ok ⟨.take directory output name options, verbose⟩)
    (hcompare : CommandLine.read words' = .ok ⟨.compare output directory format options, verbose'⟩)
    (hstatus : (s.run words).status = 0) (hlater : later.tree = (s.run words).tree) :
    ∃ settings root location snapshot,
      options.settings (encode directory) = .ok settings ∧
      s.tree.resolve .existing (encode directory) = .ok root ∧
      s.tree.resolve .creatable (encode output) = .ok location ∧
      s.tree.scanChecked { settings with output := some (encode output) }
        (name.getD (s.tree.defaultName directory)) = .ok snapshot ∧
      ((later.run words').status = 0 ↔
        (∃ source, later.tree.openPath (encode output) = .ok source) ∧
        Record.firstTimeFault? 1 snapshot.files = none ∧
        settings.Repeats later.tree root snapshot) ∧
      ((options.respectsIgnoreFiles →
          ∀ l, Ignore.levels later.tree l = Ignore.levels s.tree l) →
        (settings.Repeats later.tree root snapshot ↔
          ∀ here ∈ settings.selected later.tree root, root ++ here = location →
            (settings.onFailure = .abort →
              ∃ r, settings.capture (localReads later.tree root) here = .ok r) ∧
            Option.Rel settings.policy.Agree (snapshot.get? here.recordedPath)
              (settings.record? later.tree root (localReads later.tree root)
                here.recordedPath))) := by
  simp only [run, htake] at hstatus hlater
  have htaken := status_take hstatus
  rw [← hlater] at htaken
  obtain ⟨settings, snapshot, hsettings, hscan, hwrite⟩ := take_eq_ok.1 htaken
  obtain ⟨location, mode, hlocation, hmode, hw⟩ := FileTree.rewritten_of_write hwrite
  obtain ⟨htarget, hnone, hrespects, -⟩ := CheckOptions.settings_eq_ok hsettings
  obtain ⟨hdirectory, hthreads, root, hroot, hcompletes, hgathered⟩ :=
    FileTree.scanChecked_eq_ok.1 hscan
  simp only [htarget] at hdirectory hroot
  obtain ⟨root', mode', entries, hroot', hat⟩ := FileTree.isDirectory_iff.1 hdirectory
  obtain rfl : root = root' := Except.ok.inj (hroot.symm.trans hroot')
  refine ⟨settings, root, location, snapshot, hsettings, hroot, hlocation, hscan, ?_, ?_⟩
  · simp only [run, hcompare]
    exact status_compare_written hw hlocation hsettings hthreads hroot hat
  · intro hlevels
    obtain ⟨entry, hentry, hplace⟩ := FileTree.entryLocation_of_written hlocation hmode
    let c : Rescan settings s.tree later.tree root location :=
      { output := encode output, entry, content := _, modified := _, mode, noOutput := hnone,
        sound := hsound, distinct := FileTree.distinct_of_write hwrite hsound.distinct, written := hw,
        levels := by rwa [hrespects], directory := ⟨mode', entries, hat⟩, output_entry := hentry,
        entry_written := hplace }
    exact c.repeats_iff hcompletes hgathered

/-! ### A file that is beside what it was taken of -/

/-- A session in a directory without files. -/
def bare : Session := ⟨⟨.directory none [], [], true⟩, ⟨"", ""⟩, 0⟩

def bareOptions : CheckOptions := ⟨.all, [], [], [], false, 4, .abort⟩

def bareSettings : ScanSettings :=
  ⟨encode ".", none, ⟨.all, []⟩, [], [], false, 4, .abort⟩

theorem sound_bare : bare.tree.Sound :=
  FileTree.sound_of_directories (Node.forall_directories (by decide +kernel) (by simp))

theorem resolve_dot_bare : bare.tree.resolve .existing (encode ".") = .ok [] :=
  FileTree.resolve_eq_ok.2 ⟨by decide, by decide, by decide, .dot rfl rfl .done⟩

theorem resolve_output_bare :
    bare.tree.resolve .creatable (encode ".dirsnap.xml") = .ok [encode ".dirsnap.xml"] := by
  have hname : FileTree.Enterable (encode ".dirsnap.xml") :=
    ⟨by decide, by decide, by decide, by decide⟩
  exact FileTree.resolve_eq_ok.2 ⟨by decide, by decide, by decide, .create rfl rfl hname rfl rfl⟩

/-- The settings of the scan for the default output. -/
def bareFirst : ScanSettings := { bareSettings with output := some (encode ".dirsnap.xml") }

theorem found_bare : bareFirst.found bare.tree [] = [] := rfl

theorem selected_bare : bareFirst.selected bare.tree [] = [] := by
  rw [ScanSettings.selected, found_bare]
  exact List.mergeSort_nil

theorem scanChecked_bare (name : String) :
    bare.tree.scanChecked bareFirst name =
      .ok (bareFirst.gathered bare.tree [] (localReads bare.tree []) name) := by
  have hdirectory : bare.tree.isDirectory bareFirst.target :=
    FileTree.isDirectory_iff.2 ⟨[], none, [], resolve_dot_bare, rfl⟩
  have hcompletes : bareFirst.Completes bare.tree [] (localReads bare.tree []) := by
    intro habort
    rw [found_bare, selected_bare]
    exact ⟨fun here => List.not_mem_nil, fun here hmem => absurd hmem List.not_mem_nil⟩
  exact FileTree.scanChecked_eq_ok.2 ⟨hdirectory, by decide, [], resolve_dot_bare, hcompletes, rfl⟩

/-- The default output of a directory without files is written into it. -/
theorem take_bare : ∃ content, bare.take "." ".dirsnap.xml" none bareOptions =
    .ok { bare.tree with
      root := .directory none [(encode ".dirsnap.xml", .file content 0 (some 0o644))] } := by
  have hwrite : ∀ content, bare.tree.write (encode ".dirsnap.xml") content 0 =
      .ok { bare.tree with
        root := .directory none [(encode ".dirsnap.xml", .file content 0 (some 0o644))] } := by
    intro content
    rw [FileTree.write, resolve_output_bare]
    rfl
  exact ⟨_, take_eq_ok.2 ⟨bareSettings, _, rfl, scanChecked_bare _, hwrite _⟩⟩

theorem record?_bare (path : String) :
    bareFirst.record? bare.tree [] (localReads bare.tree []) path = none := by
  rw [ScanSettings.record?, ScanSettings.records, selected_bare]
  rfl

/-- The second scan of a directory without files selects the output of the first one. -/
theorem selected_output (content : Bytes) :
    [encode ".dirsnap.xml"] ∈ bareSettings.selected { bare.tree with
      root := .directory none [(encode ".dirsnap.xml", .file content 0 (some 0o644))] } [] := by
  rw [ScanSettings.mem_selected]
  exact ⟨List.mem_singleton.2 rfl, rfl⟩

/-- The default output makes a directory without files differ from the snapshot of it. -/
theorem status_compare_beside : (bare.run ["take"]).status = 0 ∧
    (Session.run { bare with tree := (bare.run ["take"]).tree }
      ["compare", ".dirsnap.xml", "."]).status ≠ 0 := by
  obtain ⟨content, htake⟩ := take_bare
  have hread : CommandLine.read ["take"] =
      .ok ⟨.take "." ".dirsnap.xml" none bareOptions, false⟩ := by rfl
  have hread' : CommandLine.read ["compare", ".dirsnap.xml", "."] =
      .ok ⟨.compare ".dirsnap.xml" "." .table bareOptions, false⟩ := by rfl
  have hrun : bare.run ["take"] = ⟨0, "", "", { bare.tree with
      root := .directory none [(encode ".dirsnap.xml", .file content 0 (some 0o644))] }⟩ := by
    rw [run, hread]
    simp only [perform, htake]
  have hstatus : (bare.run ["take"]).status = 0 := by rw [hrun]
  refine ⟨hstatus, ?_⟩
  intro hequal
  obtain ⟨settings, root, location, snapshot, hsettings, hroot, -, hscan, hiff, -⟩ :=
    status_compare_taken bare { bare with tree := (bare.run ["take"]).tree } sound_bare hread hread'
      hstatus rfl
  obtain rfl : bareSettings = settings := Except.ok.inj hsettings
  obtain rfl : [] = root := Except.ok.inj (resolve_dot_bare.symm.trans hroot)
  obtain ⟨-, -, hcompletes, hagree⟩ := hiff.1 hequal
  have hmem : [encode ".dirsnap.xml"] ∈ bareSettings.selected (bare.run ["take"]).tree [] := by
    rw [hrun]
    exact selected_output content
  obtain ⟨r, hr⟩ := (hcompletes rfl).2 _ hmem
  have hrecorded := ScanSettings.record?_ne_none hmem hr
  have hrel := hagree (Location.recordedPath [encode ".dirsnap.xml"])
  rw [← Except.ok.inj ((scanChecked_bare _).symm.trans hscan), ScanSettings.get?_gathered,
    record?_bare] at hrel
  cases hfound : bareSettings.record? (bare.run ["take"]).tree []
      (localReads (bare.run ["take"]).tree []) (Location.recordedPath [encode ".dirsnap.xml"]) with
  | none => exact hrecorded hfound
  | some found =>
    simp only [hfound] at hrel
    cases hrel

end Session

end FileCensus
