import FileCensus.Proofs.EntryLocation
import FileCensus.Proofs.EqualReports
import FileCensus.Proofs.ScanRecords
import FileCensus.Proofs.Walks

/-!
# Scanning again after a write

A directory is scanned for a snapshot, a file is written, and the directory is scanned again without
an output. The second scan selects and records what the first one did, but for the written file: the
first scan leaves the output out, and the second one does not.
-/

namespace FileCensus

theorem Node.Distinct.at? {n m : Node} {l : Location} (h : n.Distinct) (hat : n.at? l = some m) :
    m.Distinct := by
  intro l' mode entries hat'
  refine h (l ++ l') mode entries ?_
  rw [Node.at?_append, hat]
  exact hat'

namespace FileTree

theorem distinct_of_write {t after : FileTree} {path content : Bytes} {now : Int}
    (h : t.write path content now = .ok after) (hd : t.root.Distinct) : after.root.Distinct := by
  rw [write] at h
  split at h
  · simp at h
  · split at h
    · simp at h
    · rename_i location hresolve mode hmode
      obtain rfl := Except.ok.inj h
      apply hd.put
      intro l mode entries hat
      cases l with
      | nil => simp at hat
      | cons name l =>
        rw [Node.at?_cons_of_bare rfl] at hat
        simp at hat

end FileTree

namespace ScanSettings

variable {s : ScanSettings} {t : FileTree} {root : Location}

theorem mem_found {mode : Mode} {entries : List (Path.Name × Node)}
    (hroot : t.root.at? root = some (.directory mode entries)) (hd : t.root.Distinct) {f : Found} :
    f ∈ s.found t root ↔ t.Finds (s.filter t root) root true [] (.directory mode entries) f := by
  have hfound : s.found t root = t.walk (s.filter t root) true [] (.directory mode entries) := by
    rw [found, hroot]
    rfl
  rw [hfound]
  exact FileTree.mem_walk (by rwa [List.append_nil]) (hd.at? hroot)

theorem file_of_mem_found {mode : Mode} {entries : List (Path.Name × Node)}
    (hroot : t.root.at? root = some (.directory mode entries)) (hd : t.root.Distinct) {l : Location}
    (h : .file l ∈ s.found t root) :
    ∃ content modified mode, t.root.at? (root ++ l) = some (.file content modified mode) := by
  obtain ⟨l', reachable, -, h⟩ := (FileTree.finds_iff hroot).1 ((mem_found hroot hd).1 h)
  obtain ⟨n, hn, h⟩ := Option.bind_eq_some_iff.1 h
  obtain ⟨rfl, content, modified, mode, rfl⟩ := FileTree.foundAt_eq_file.1 h
  exact ⟨content, modified, mode, hn⟩

/-- A scan gives a snapshot, and one that agrees with another one at every path. -/
def Repeats (s : ScanSettings) (t : FileTree) (root : Location) (snapshot : Snapshot) : Prop :=
  s.Completes t root (localReads t root) ∧ ∀ path,
    Option.Rel s.policy.Agree (snapshot.get? path) (s.record? t root (localReads t root) path)

end ScanSettings

/-- A first scan of a directory for an output, the write of the output, and what the second scan of
the directory finds then. -/
structure Rescan (s : ScanSettings) (before after : FileTree) (root location : Location) where
  output : Bytes
  entry : Location
  content : Bytes
  modified : Int
  mode : Mode
  noOutput : s.output = none
  sound : before.Sound
  distinct : after.root.Distinct
  written : FileTree.Rewritten before after location (.file content modified mode)
  levels : s.respectsIgnoreFiles → ∀ l, Ignore.levels after l = Ignore.levels before l
  directory : ∃ mode entries, before.root.at? root = some (.directory mode entries)
  output_entry : before.entryLocation? output = some entry
  entry_written : entry = location ∨ ∃ target, before.root.at? entry = some (.link target)

namespace Rescan

variable {s : ScanSettings} {before after : FileTree} {root location : Location}
variable (c : Rescan s before after root location)

/-- The settings of the first scan. -/
def first : ScanSettings := { s with output := some c.output }

theorem filter_passes (here : Location) (name : Path.Name) (isDirectory : Bool) :
    (s.filter after root).passes here name isDirectory =
      (c.first.filter before root).passes here name isDirectory := by
  have hfirst : c.first.filter before root = s.filter before root := rfl
  rw [hfirst, ScanSettings.filter, ScanSettings.filter]
  split
  · rename_i hrespects
    simp only [WalkFilter.passes, FileTree.ignoreFilter, c.levels hrespects]
  · rfl

/-- The second scan finds what the first one found, but for the written file. -/
theorem mem_found {f : Found} (hf : ∀ l, f = .file l → root ++ l ≠ location) :
    f ∈ s.found after root ↔ f ∈ c.first.found before root := by
  obtain ⟨mode, entries, hroot⟩ := c.directory
  obtain ⟨entries', hroot'⟩ := c.written.directory hroot
  rw [ScanSettings.mem_found hroot c.sound.distinct, ScanSettings.mem_found hroot' c.distinct]
  exact (c.written.filesDiffer rfl).finds c.filter_passes hroot hroot' hf

theorem takes_first {here : Location} (hne : root ++ here ≠ c.entry) :
    c.first.takes before (root ++ here) = s.takes after (root ++ here) := by
  have hbefore : c.first.outputLocation? before = some c.entry := c.output_entry
  have hafter : s.outputLocation? after = none := by
    rw [ScanSettings.outputLocation?, c.noOutput]
    rfl
  have hentry : ¬some c.entry = some (root ++ here) := fun he => hne (Option.some.inj he).symm
  have hnone : ¬none = some (root ++ here) := nofun
  simp only [ScanSettings.takes, hbefore, hafter, hentry, hnone]
  rfl

/-- No file stands where the output's name stands, unless it is written. -/
theorem ne_entry {here : Location} (h : .file here ∈ c.first.found before root)
    (hne : root ++ here ≠ location) : root ++ here ≠ c.entry := by
  intro he
  rcases c.entry_written with hentry | ⟨target, hlink⟩
  · exact hne (he.trans hentry)
  · obtain ⟨mode, entries, hroot⟩ := c.directory
    obtain ⟨content, modified, mode, hat⟩ :=
      ScanSettings.file_of_mem_found hroot c.sound.distinct h
    rw [he, hlink] at hat
    simp at hat

/-- The second scan selects what the first one selected, but for the written file. -/
theorem mem_selected {here : Location} (hne : root ++ here ≠ location) :
    here ∈ s.selected after root ↔ here ∈ c.first.selected before root := by
  have hf : ∀ l, Found.file here = .file l → root ++ l ≠ location := by
    intro l hl
    rwa [← Found.file.inj hl]
  rw [ScanSettings.mem_selected, ScanSettings.mem_selected, c.mem_found hf]
  apply and_congr_right
  intro hfound
  rw [c.takes_first (c.ne_entry hfound hne)]

/-- What the first scan selects is selected again, even if it has been written since. -/
theorem selected_again {here : Location} (h : here ∈ c.first.selected before root) :
    here ∈ s.selected after root := by
  by_cases hne : root ++ here = location
  · obtain ⟨hfound, htakes⟩ := ScanSettings.mem_selected.1 h
    obtain ⟨mode, entries, hroot⟩ := c.directory
    obtain ⟨entries', hroot'⟩ := c.written.directory hroot
    have hentry : root ++ here ≠ c.entry := by
      intro he
      have hbefore : c.first.outputLocation? before = some c.entry := c.output_entry
      simp [ScanSettings.takes, hbefore, he] at htakes
    rw [ScanSettings.mem_selected, ← c.takes_first hentry]
    refine ⟨?_, htakes⟩
    rw [ScanSettings.mem_found hroot' c.distinct, FileTree.finds_iff hroot']
    rw [ScanSettings.mem_found hroot c.sound.distinct, FileTree.finds_iff hroot] at hfound
    obtain ⟨l, reachable, hreach, h⟩ := hfound
    refine ⟨l, reachable, ?_, ?_⟩
    · rwa [(c.written.filesDiffer rfl).reach c.filter_passes]
    · obtain ⟨n, -, hn⟩ := Option.bind_eq_some_iff.1 h
      rw [(FileTree.foundAt_eq_file.1 hn).1, hne, c.written.written]
      rfl
  · exact (c.mem_selected hne).2 h

/-- What is captured of a file that was not written is what was captured of it before. -/
theorem capture_again {here : Location} (h : here ∈ c.first.selected before root)
    (hne : root ++ here ≠ location) :
    s.capture (ScanSettings.localReads after root) here =
      c.first.capture (ScanSettings.localReads before root) here := by
  obtain ⟨mode, entries, hroot⟩ := c.directory
  obtain ⟨content, modified, mode, hat⟩ :=
    ScanSettings.file_of_mem_found hroot c.sound.distinct (ScanSettings.mem_selected.1 h).1
  have hreads : ScanSettings.localReads after root here = ScanSettings.localReads before root here :=
    FileTree.reads_path c.written c.sound hat hne
  rw [ScanSettings.capture, ScanSettings.capture, hreads]
  rfl

/-- The second scan gives a snapshot if the first one did, unless it has to capture the written file
and cannot. -/
theorem completes_iff (h : c.first.Completes before root (ScanSettings.localReads before root)) :
    s.Completes after root (ScanSettings.localReads after root) ↔
      (s.onFailure = .abort → ∀ here ∈ s.selected after root, root ++ here = location →
        ∃ r, s.capture (ScanSettings.localReads after root) here = .ok r) := by
  constructor
  · intro hsecond habort here hmem hwritten
    exact (hsecond habort).2 here hmem
  · intro hsecond habort
    obtain ⟨hunlisted, hcaptured⟩ := h habort
    refine ⟨fun here hmem => hunlisted here ?_, ?_⟩
    · exact (c.mem_found fun l hl => Found.noConfusion hl).1 hmem
    · intro here hmem
      by_cases hne : root ++ here = location
      · exact hsecond habort here hmem hne
      · have hfirst := (c.mem_selected hne).1 hmem
        rw [c.capture_again hfirst hne]
        exact hcaptured here hfirst

/-- Where the written file is not recorded, the second scan records what the first one did. -/
theorem record?_again {path : String}
    (hpath : ∀ here ∈ s.selected after root, root ++ here = location → here.recordedPath ≠ path) :
    s.record? after root (ScanSettings.localReads after root) path =
      c.first.record? before root (ScanSettings.localReads before root) path := by
  have hselected : ∀ here : Location, here.recordedPath = path →
      (here ∈ s.selected after root ↔ here ∈ c.first.selected before root) := by
    intro here hp
    by_cases hne : root ++ here = location
    · have hnot : here ∉ s.selected after root := fun hmem => hpath here hmem hne hp
      exact ⟨fun h => absurd h hnot, fun h => absurd (c.selected_again h) hnot⟩
    · exact c.mem_selected hne
  have hcapture : ∀ here ∈ c.first.selected before root, here.recordedPath = path →
      s.capture (ScanSettings.localReads after root) here =
        c.first.capture (ScanSettings.localReads before root) here := by
    intro here hmem hp
    exact c.capture_again hmem fun hne => hpath here (c.selected_again hmem) hne hp
  apply Option.ext
  intro r
  rw [ScanSettings.record?_eq_some, ScanSettings.record?_eq_some]
  constructor
  · rintro ⟨here, hmem, hp, hr, hmax⟩
    have hfirst := (hselected here hp).1 hmem
    refine ⟨here, hfirst, hp, (hcapture here hfirst hp).symm.trans hr, ?_⟩
    intro other hother hp' hok
    rw [← hcapture other hother hp'] at hok
    exact hmax other ((hselected other hp').2 hother) hp' hok
  · rintro ⟨here, hmem, hp, hr, hmax⟩
    refine ⟨here, (hselected here hp).2 hmem, hp, (hcapture here hmem hp).trans hr,
      fun other hother hp' hok => ?_⟩
    have hfirst := (hselected other hp').1 hother
    rw [hcapture other hfirst hp'] at hok
    exact hmax other hfirst hp' hok

/-- Both scans record the same under a policy if they do where the written file is recorded. -/
theorem agree_iff {policy : Policy} :
    (∀ path, Option.Rel policy.Agree
        (c.first.record? before root (ScanSettings.localReads before root) path)
        (s.record? after root (ScanSettings.localReads after root) path)) ↔
      ∀ here ∈ s.selected after root, root ++ here = location → Option.Rel policy.Agree
        (c.first.record? before root (ScanSettings.localReads before root) here.recordedPath)
        (s.record? after root (ScanSettings.localReads after root) here.recordedPath) := by
  constructor
  · intro h here hmem hwritten
    exact h here.recordedPath
  · intro h path
    by_cases hpath : ∃ here ∈ s.selected after root, root ++ here = location ∧
        here.recordedPath = path
    · obtain ⟨here, hmem, hwritten, rfl⟩ := hpath
      exact h here hmem hwritten
    · rw [c.record?_again fun here hmem hwritten hp => hpath ⟨here, hmem, hwritten, hp⟩]
      cases c.first.record? before root (ScanSettings.localReads before root) path with
      | none => exact .none
      | some r => exact .some (policy.agree_refl r)

/-- Whether the second scan repeats the first one is decided where it selects the written file. -/
theorem repeats_iff {snapshot : Snapshot} {name : String}
    (hcompletes : c.first.Completes before root (ScanSettings.localReads before root))
    (hgathered : c.first.gathered before root (ScanSettings.localReads before root) name = snapshot) :
    s.Repeats after root snapshot ↔
      ∀ here ∈ s.selected after root, root ++ here = location →
        (s.onFailure = .abort →
          ∃ r, s.capture (ScanSettings.localReads after root) here = .ok r) ∧
        Option.Rel s.policy.Agree (snapshot.get? here.recordedPath)
          (s.record? after root (ScanSettings.localReads after root) here.recordedPath) := by
  have hfirst : ∀ path, snapshot.get? path =
      c.first.record? before root (ScanSettings.localReads before root) path := by
    intro path
    rw [← hgathered]
    exact ScanSettings.get?_gathered _ _
  simp only [ScanSettings.Repeats, hfirst, c.completes_iff hcompletes, c.agree_iff]
  constructor
  · rintro ⟨hcaptured, hagree⟩ here hmem hwritten
    exact ⟨fun habort => hcaptured habort here hmem hwritten, hagree here hmem hwritten⟩
  · intro hall
    constructor
    · intro habort here hmem hwritten
      exact (hall here hmem hwritten).1 habort
    · intro here hmem hwritten
      exact (hall here hmem hwritten).2

end Rescan

end FileCensus
