import FileCensus.Proofs.FilesKept

/-!
# The output and the scan for it

The scan for an output leaves out the place where the output's name stands, but writing the output
follows a link there. So the file that is written is not recorded, unless the output is a link that
leads to a file which the scan selects. Such a file is recorded as it was before the write.
-/

namespace FileCensus

open ScanSettings (localReads)
open Utf8 (encode)

namespace ScanSettings

/-- A scan records a file: it captures it, and no later file of its path. -/
structure Keeps (s : ScanSettings) (t : FileTree) (root : Location) (reads : Location → Reads)
    (here : Location) (r : Record) : Prop where
  selected : here ∈ s.selected t root
  captured : s.capture reads here = .ok r
  last : ∀ other ∈ s.selected t root, other.recordedPath = here.recordedPath →
    (∃ r', s.capture reads other = .ok r') → other ≤ here

variable {s : ScanSettings} {t : FileTree} {root here : Location} {reads : Location → Reads}
variable {r : Record}

theorem get?_gathered_iff {name path : String} : (s.gathered t root reads name).get? path = some r ↔
    ∃ here, here.recordedPath = path ∧ s.Keeps t root reads here r := by
  rw [get?_gathered, record?_eq_some]
  constructor
  · rintro ⟨here, hmem, rfl, hr, hlast⟩
    exact ⟨here, rfl, hmem, hr, hlast⟩
  · rintro ⟨here, rfl, hkeeps⟩
    exact ⟨here, hkeeps.selected, rfl, hkeeps.captured, hkeeps.last⟩

/-- The settings of a scan for an output. -/
def writing (s : ScanSettings) (output : Bytes) : ScanSettings := { s with output := some output }

variable {output : Bytes} {entry : Location}

/-- A scan for an output selects what any scan does, but for what stands under the output's name. -/
theorem mem_selected_writing (hnone : s.output = none) (hentry : t.entryLocation? output = some entry) :
    here ∈ (s.writing output).selected t root ↔
      here ∈ s.selected t root ∧ root ++ here ≠ entry := by
  have hfound : (s.writing output).found t root = s.found t root := rfl
  have houtput : (s.writing output).outputLocation? t = some entry := hentry
  have hnothing : s.outputLocation? t = none := by
    rw [outputLocation?, hnone]
    rfl
  have htakes : (s.writing output).takes t (root ++ here) =
      (s.takes t (root ++ here) && !(entry = root ++ here)) := by
    simp only [takes, houtput, hnothing, Option.some.injEq, reduceCtorEq, decide_false,
      Bool.not_false, Bool.true_and]
    exact (Bool.and_assoc ..).trans (Bool.and_comm ..)
  rw [mem_selected, mem_selected, hfound, htakes, ne_comm]
  simp only [Bool.and_eq_true, Bool.not_eq_true', decide_eq_false_iff_not, and_assoc, ne_eq]

/-- Where no selected file stands under the output's name, a scan for the output keeps what any scan
does. -/
theorem keeps_writing (hnone : s.output = none) (hentry : t.entryLocation? output = some entry)
    (h : ∀ here ∈ s.selected t root, root ++ here ≠ entry) :
    (s.writing output).Keeps t root reads here r ↔ s.Keeps t root reads here r := by
  have hselected : ∀ here, here ∈ (s.writing output).selected t root ↔ here ∈ s.selected t root := by
    intro here
    rw [mem_selected_writing hnone hentry]
    exact and_iff_left_of_imp (h here)
  have hcapture : (s.writing output).capture reads = s.capture reads := rfl
  constructor
  · rintro ⟨hmem, hr, hlast⟩
    simp only [hselected, hcapture] at hmem hr hlast
    exact ⟨hmem, hr, hlast⟩
  · rintro ⟨hmem, hr, hlast⟩
    rw [← hselected] at hmem
    simp only [← hselected] at hlast
    exact ⟨hmem, hr, hlast⟩

end ScanSettings

namespace FileTree

variable {t : FileTree} {output : Bytes} {location entry : Location} {mode : Mode}

/-- A place that can be written holds no link. -/
theorem ne_link_of_writableMode (h : t.writableMode location = .ok mode) (target : Bytes) :
    t.root.at? location ≠ some (.link target) := by
  intro hlink
  rcases writableMode_eq_ok h with ⟨content, modified, hat⟩ | ⟨hat, -⟩
  · cases hlink.symm.trans hat
  · cases hlink.symm.trans hat

/-- The written place is the one under the output's name exactly if no link stands there. -/
theorem entry_eq_iff (hlocation : t.resolve .creatable output = .ok location)
    (hmode : t.writableMode location = .ok mode) (hentry : t.entryLocation? output = some entry) :
    entry = location ↔ ∀ target, t.root.at? entry ≠ some (.link target) := by
  obtain ⟨entry', hentry', hplace⟩ := entryLocation_of_written hlocation hmode
  obtain rfl := Option.some.inj (hentry.symm.trans hentry')
  constructor
  · rintro rfl
    exact ne_link_of_writableMode hmode
  · intro h
    rcases hplace with he | ⟨target, hlink⟩
    · exact he
    · exact absurd hlink (h target)

end FileTree

namespace Session

variable {s : Session} {words : List String} {directory output : String} {name : Option String}
variable {options : CheckOptions} {verbose : Bool}

/-- A snapshot that is taken holds what the scan for its output keeps. The written file is kept if and
only if a link stands under the output's name and a scan without an output keeps the file too. -/
theorem keeps_written (hsound : s.tree.Sound)
    (hread : CommandLine.read words = .ok ⟨.take directory output name options, verbose⟩)
    (hstatus : (s.run words).status = 0) :
    ∃ settings root location entry snapshot mode,
      options.settings (encode directory) = .ok settings ∧
      s.tree.resolve .existing (encode directory) = .ok root ∧
      s.tree.entryLocation? (encode output) = some entry ∧
      s.tree.resolve .creatable (encode output) = .ok location ∧
      s.tree.Rewritten (s.run words).tree location
        (.file (Document.writeBytes s.origin snapshot) s.now mode) ∧
      (∀ path r, snapshot.get? path = some r ↔ ∃ here, here.recordedPath = path ∧
        (settings.writing (encode output)).Keeps s.tree root (localReads s.tree root) here r) ∧
      ∀ here r, root ++ here = location →
        ((settings.writing (encode output)).Keeps s.tree root (localReads s.tree root) here r ↔
          (∃ target, s.tree.root.at? entry = some (.link target)) ∧
            settings.Keeps s.tree root (localReads s.tree root) here r) := by
  rw [run_of_read hread] at hstatus ⊢
  obtain ⟨settings, snapshot, hsettings, hscan, hwrite⟩ := take_eq_ok.1 (status_take hstatus)
  obtain ⟨htarget, hnone, -, -⟩ := CheckOptions.settings_eq_ok hsettings
  obtain ⟨location, mode, hlocation, hmode, hw⟩ := FileTree.rewritten_of_write hwrite
  obtain ⟨entry, hentry, -⟩ := FileTree.entryLocation_of_written hlocation hmode
  obtain ⟨hdirectory, -, root, hroot, -, hgathered⟩ := FileTree.scanChecked_eq_ok.1 hscan
  obtain ⟨root', mode', entries, hroot', hat⟩ := FileTree.isDirectory_iff.1 hdirectory
  obtain rfl : root = root' := Except.ok.inj (hroot.symm.trans hroot')
  simp only [htarget] at hroot
  refine ⟨settings, root, location, entry, snapshot, mode, hsettings, hroot, hentry, hlocation, hw,
    ?_, ?_⟩
  · intro path r
    rw [← hgathered]
    exact ScanSettings.get?_gathered_iff
  · intro here r hhere
    by_cases hlink : ∃ target, s.tree.root.at? entry = some (.link target)
    · rw [and_iff_right hlink]
      refine ScanSettings.keeps_writing hnone hentry fun other hother he => ?_
      obtain ⟨target, hlink⟩ := hlink
      obtain ⟨content, modified, mode, hfile⟩ := ScanSettings.file_of_mem_found hat hsound.distinct
        (ScanSettings.mem_selected.1 hother).1
      rw [he, hlink] at hfile
      cases hfile
    · refine iff_of_false (fun hkeeps => ?_) fun h => hlink h.1
      have hplace := (FileTree.entry_eq_iff hlocation hmode hentry).2 (not_exists.1 hlink)
      refine ((ScanSettings.mem_selected_writing hnone hentry).1 hkeeps.selected).2 ?_
      rw [hhere, hplace]

/-! ### An output that is a link into the directory -/

/-- A session whose file `s.xml` is a link to the one file of the directory. -/
def linked : Session :=
  ⟨⟨.directory none [(encode "d", .directory none [(encode "f", .file [] 0 none)]),
    (encode "s.xml", .link (encode "d/f"))], [], true⟩, ⟨"", ""⟩, 0⟩

def linkedWords : List String :=
  ["take", "d", "-o", "s.xml", "--no-size", "--no-mtime", "--no-md5", "--no-permissions"]

def linkedOptions : CheckOptions :=
  ⟨⟨.const false, .binary⟩, [], [], [], false, 4, .abort⟩

def linkedSettings : ScanSettings :=
  ⟨encode "d", none, ⟨⟨.const false, .binary⟩, []⟩, [], [], false, 4, .abort⟩

theorem sound_linked : linked.tree.Sound := by
  refine FileTree.sound_of_directories (Node.forall_directories (by decide +kernel) ?_)
  simp only [List.forall_mem_cons, List.not_mem_nil, false_implies, implies_true, and_true]
  refine ⟨Node.forall_directories (by decide +kernel) ?_, Node.forall_directories_of_bare rfl⟩
  simp only [List.forall_mem_cons, List.not_mem_nil, false_implies, implies_true, and_true]
  exact Node.forall_directories_of_bare rfl

theorem resolve_directory_linked : linked.tree.resolve .existing (encode "d") = .ok [encode "d"] := by
  have hname : FileTree.Enterable (encode "d") := ⟨by decide, by decide, by decide, by decide⟩
  exact FileTree.resolve_eq_ok.2 ⟨by decide, by decide, by decide,
    .enter rfl rfl hname nofun rfl nofun .done⟩

/-- The output leads to the file of the directory. -/
theorem resolve_output_linked :
    linked.tree.resolve .creatable (encode "s.xml") = .ok [encode "d", encode "f"] := by
  have hdirectory : FileTree.Enterable (encode "d") := ⟨by decide, by decide, by decide, by decide⟩
  have hfile : FileTree.Enterable (encode "f") := ⟨by decide, by decide, by decide, by decide⟩
  have hlink : FileTree.Enterable (encode "s.xml") := ⟨by decide, by decide, by decide, by decide⟩
  have htarget : FileTree.Leads linked.tree .creatable 39 [] [encode "d", encode "f"]
      [encode "d", encode "f"] :=
    .enter rfl rfl hdirectory (by decide) rfl nofun (.enter rfl rfl hfile (by decide) rfl nofun .done)
  exact FileTree.resolve_eq_ok.2 ⟨by decide, by decide, by decide,
    .link rfl rfl hlink (by decide) rfl htarget⟩

theorem entryLocation_linked :
    linked.tree.entryLocation? (encode "s.xml") = some [encode "s.xml"] := by
  have hdot : linked.tree.resolve .existing Path.dot = .ok [] :=
    FileTree.resolve_eq_ok.2 ⟨by decide, by decide, by decide, .dot rfl rfl .done⟩
  exact FileTree.entryLocation?_eq_some.2 ⟨encode "s.xml", [], by decide +kernel, hdot, rfl⟩

theorem found_linked : linkedSettings.found linked.tree [encode "d"] = [.file [encode "f"]] := by
  decide +kernel

theorem keeps_linked : ∃ r, linkedSettings.Keeps linked.tree [encode "d"]
    (localReads linked.tree [encode "d"]) [encode "f"] r := by
  have hselected : ∀ here, here ∈ linkedSettings.selected linked.tree [encode "d"] ↔
      here = [encode "f"] := by
    intro here
    rw [ScanSettings.mem_selected, found_linked, List.mem_singleton, Found.file.injEq]
    refine and_iff_left_of_imp ?_
    rintro rfl
    rfl
  refine ⟨_, (hselected _).2 rfl, rfl, fun other hother _ _ => ?_⟩
  rw [(hselected other).1 hother]
  exact Std.le_refl _

theorem scanChecked_linked (name : String) :
    linked.tree.scanChecked (linkedSettings.writing (encode "s.xml")) name =
      .ok ((linkedSettings.writing (encode "s.xml")).gathered linked.tree [encode "d"]
        (localReads linked.tree [encode "d"]) name) := by
  have hdirectory : linked.tree.isDirectory (encode "d") :=
    FileTree.isDirectory_iff.2 ⟨_, none, _, resolve_directory_linked, rfl⟩
  refine FileTree.scanChecked_eq_ok.2
    ⟨hdirectory, by decide, _, resolve_directory_linked, fun _ => ⟨?_, fun here _ => ⟨_, rfl⟩⟩, rfl⟩
  have hfound : (linkedSettings.writing (encode "s.xml")).found linked.tree [encode "d"] =
      linkedSettings.found linked.tree [encode "d"] := rfl
  rw [hfound, found_linked]
  simp

/-- The file to which the output is a link is recorded, and then it is written. -/
theorem keeps_written_linked : (linked.run linkedWords).status = 0 ∧ ∃ snapshot mode,
    linked.tree.Rewritten (linked.run linkedWords).tree [encode "d", encode "f"]
      (.file (Document.writeBytes ⟨"", ""⟩ snapshot) 0 mode) ∧
    ∃ r, snapshot.get? "f" = some r := by
  have hread : CommandLine.read linkedWords = .ok ⟨.take "d" "s.xml" none linkedOptions, false⟩ := by
    rfl
  have hstatus : (linked.run linkedWords).status = 0 := by
    have hwrite : ∀ content, linked.tree.write (encode "s.xml") content 0 = .ok { linked.tree with
        root := Node.put (.file content 0 none) [encode "d", encode "f"] linked.tree.root } := by
      intro content
      rw [FileTree.write, resolve_output_linked]
      rfl
    have htake : linked.take "d" "s.xml" none linkedOptions = .ok _ :=
      take_eq_ok.2 ⟨linkedSettings, _, rfl, scanChecked_linked _, hwrite _⟩
    rw [run_of_read hread, perform_take_ok htake]
  refine ⟨hstatus, ?_⟩
  obtain ⟨settings, root, location, entry, snapshot, mode, hsettings, hroot, hentry, hlocation, hw,
    hget, hiff⟩ := keeps_written sound_linked hread hstatus
  obtain rfl : linkedSettings = settings := Except.ok.inj hsettings
  obtain rfl := Except.ok.inj (resolve_directory_linked.symm.trans hroot)
  obtain rfl := Except.ok.inj (resolve_output_linked.symm.trans hlocation)
  obtain rfl := Option.some.inj (entryLocation_linked.symm.trans hentry)
  obtain ⟨r, hr⟩ := keeps_linked
  refine ⟨snapshot, mode, hw, r, (hget "f" r).2 ⟨[encode "f"], by decide +kernel, ?_⟩⟩
  exact (hiff [encode "f"] r rfl).2 ⟨⟨_, rfl⟩, hr⟩

end Session

end FileCensus
