import FileCensus.Proofs.CapturedValues
import FileCensus.Proofs.ExactReports
import FileCensus.Proofs.ReportJson
import FileCensus.Proofs.TakeThenCompare

/-!
# Comparing two files

The exit status of a comparison of two files is zero exactly if both hold snapshots and these match:
they have the same paths, and at every path the same values of the attributes that the policy checks
there. The order of the two sides does not matter for it. The report itself can be read back from
what is printed as JSON.
-/

namespace FileCensus

open Utf8 (encode)

/-- Two snapshots have the same paths, and the same values of what the policy checks. A value that is
unknown on both sides is the same. -/
structure Policy.Matches (policy : Policy) (l r : Snapshot) : Prop where
  paths : ∀ path, path ∈ l.paths ↔ path ∈ r.paths
  values : ∀ path x y, l.get? path = some x → r.get? path = some y →
    ∀ a, policy.checksAt path a → x.captured a = y.captured a

namespace Policy

variable {policy : Policy} {l r : Snapshot}

theorem Matches.symm (h : policy.Matches l r) : policy.Matches r l :=
  ⟨fun path => (h.paths path).symm, fun path y x hr hl a hcheck =>
    (h.values path x y hl hr a hcheck).symm⟩

theorem agree_iff_captured {x y : Record} :
    policy.Agree x y ↔ ∀ a, policy.checksAt x.path.text a → x.captured a = y.captured a :=
  forall₂_congr fun _ _ => Record.value_eq_iff

theorem isEqual_iff_matches : (policy.compareSnapshots l r).isEqual ↔ policy.Matches l r := by
  rw [isEqual_compareSnapshots]
  constructor
  · intro h
    refine ⟨fun path => ?_, fun path x y hx hy => ?_⟩
    · rw [Snapshot.mem_paths, Snapshot.mem_paths]
      have hpath := h path
      generalize l.get? path = x, r.get? path = y at hpath ⊢
      cases hpath <;> simp
    · have hpath := h path
      obtain ⟨-, rfl⟩ := Snapshot.get?_eq_some.1 hx
      rw [hx, hy] at hpath
      cases hpath with
      | some hagree => exact agree_iff_captured.1 hagree
  · intro h path
    have hpaths := h.paths path
    rw [Snapshot.mem_paths, Snapshot.mem_paths] at hpaths
    cases hl : l.get? path with
    | none =>
      cases hr : r.get? path with
      | none => exact .none
      | some y => simp [hl, hr] at hpaths
    | some x =>
      cases hr : r.get? path with
      | none => simp [hl, hr] at hpaths
      | some y =>
        obtain ⟨-, rfl⟩ := Snapshot.get?_eq_some.1 hl
        exact .some (agree_iff_captured.2 (h.values _ x y hl hr))

theorem matches_named (leftName rightName : String) :
    policy.Matches (l.named leftName) (r.named rightName) ↔ policy.Matches l r := by
  rw [← isEqual_iff_matches, ← isEqual_iff_matches, isEqual_compareSnapshots,
    isEqual_compareSnapshots]
  simp only [Snapshot.get?_named]

end Policy

theorem Snapshot.named_eq (s : Snapshot) (name : String) :
    s.named name = s.rename (if s.name = "" then name else s.name) := by
  rw [named]
  by_cases hname : s.name = ""
  · rw [if_pos hname, if_pos (String.isEmpty_iff.2 hname)]
  · rw [if_neg hname, if_neg fun hempty => hname (String.isEmpty_iff.1 hempty)]
    rfl

namespace Session

variable {s : Session} {words : List String} {left right : String} {format : ReportFormat}
variable {options : CheckOptions} {verbose : Bool} {rules : RuleSet}

/-- Two sides that are not directories are loaded and compared. -/
theorem compare_files (hrules : RuleSet.parse options.rules = .ok rules)
    (hleft : s.tree.isDirectory (encode left) = false)
    (hright : s.tree.isDirectory (encode right) = false) :
    s.compare left right options =
      (s.tree.load (encode left)).bind fun l => (s.tree.load (encode right)).map fun r =>
        Policy.compareSnapshots ⟨options.checks, rules⟩ (l.named left) (r.named right) := by
  simp only [compare, CheckOptions.settings, hrules, FileTree.side, hleft, hright,
    Bool.false_eq_true, if_false]
  cases s.tree.load (encode left) with
  | error fault => rfl
  | ok l =>
    cases s.tree.load (encode right) with
    | error fault => rfl
    | ok r => rfl

theorem status_perform_files (hrules : RuleSet.parse options.rules = .ok rules)
    (hleft : s.tree.isDirectory (encode left) = false)
    (hright : s.tree.isDirectory (encode right) = false) :
    (s.perform (.compare left right format options)).status = 0 ↔
      ∃ l r, s.tree.load (encode left) = .ok l ∧ s.tree.load (encode right) = .ok r ∧
        Policy.Matches ⟨options.checks, rules⟩ l r := by
  rw [status_compare, compare_files hrules hleft hright]
  cases hl : s.tree.load (encode left) with
  | error fault => simp [Except.bind]
  | ok l =>
    cases hr : s.tree.load (encode right) with
    | error fault => simp [Except.bind, Except.map]
    | ok r =>
      simp [Except.bind, Except.map, Policy.isEqual_iff_matches, Policy.matches_named]

theorem status_perform_compare
    (h : (s.perform (.compare left right format options)).status ≠ 0) :
    (s.perform (.compare left right format options)).status = 1 := by
  rw [perform] at h ⊢
  cases hcompare : s.compare left right options with
  | error fault => rfl
  | ok report =>
    have hdiffer : report.isEqual = false := by simpa [hcompare, finish] using h
    simp [finish, hdiffer]

theorem output_perform_compare {report : Report} (h : s.compare left right options = .ok report) :
    (s.perform (.compare left right format options)).output = format.render report ++ "\n" := by
  rw [perform, h]
  rfl

theorem run_of_read {line : CommandLine} (hread : CommandLine.read words = .ok line) :
    s.run words = s.perform line.command := by
  rw [run, hread]

/-- A comparison of two files finds them equal if both hold snapshots and these match. What it prints
as JSON is the report on the two, each under its own name or else that of its file. The status stays
the same when the two are exchanged. -/
theorem status_compare_files
    (hread : CommandLine.read words = .ok ⟨.compare left right format options, verbose⟩)
    (hrules : RuleSet.parse options.rules = .ok rules)
    (hleft : s.tree.isDirectory (encode left) = false)
    (hright : s.tree.isDirectory (encode right) = false) :
    ((s.run words).status = 0 ↔
      ∃ l r, s.tree.load (encode left) = .ok l ∧ s.tree.load (encode right) = .ok r ∧
        Policy.Matches ⟨options.checks, rules⟩ l r) ∧
    (format = .json → ∀ l r, s.tree.load (encode left) = .ok l →
      s.tree.load (encode right) = .ok r →
      Report.ofJson (s.run words).output = .ok (Policy.compareSnapshots ⟨options.checks, rules⟩
        (l.rename (if l.name = "" then left else l.name))
        (r.rename (if r.name = "" then right else r.name)))) ∧
    ∀ words' format' verbose',
      CommandLine.read words' = .ok ⟨.compare right left format' options, verbose'⟩ →
        (s.run words').status = (s.run words).status := by
  have hstatus := @status_perform_files s left right format options rules hrules hleft hright
  rw [run_of_read hread]
  refine ⟨hstatus, ?_, ?_⟩
  · rintro rfl l r hl hr
    have hcompare := compare_files hrules hleft hright
    rw [hl, hr] at hcompare
    rw [output_perform_compare hcompare, ← Snapshot.named_eq, ← Snapshot.named_eq]
    exact Report.ofJson_json_line _
  · intro words' format' verbose' hread'
    rw [run_of_read hread']
    have hswapped : (s.perform (.compare right left format' options)).status = 0 ↔
        (s.perform (.compare left right format options)).status = 0 := by
      rw [hstatus, status_perform_files hrules hright hleft]
      constructor
      · rintro ⟨r, l, hr, hl, hmatch⟩
        exact ⟨l, r, hl, hr, hmatch.symm⟩
      · rintro ⟨l, r, hl, hr, hmatch⟩
        exact ⟨r, l, hr, hl, hmatch.symm⟩
    by_cases hzero : (s.perform (.compare left right format options)).status = 0
    · exact (hswapped.2 hzero).trans hzero.symm
    · have hone' := status_perform_compare fun hzero' => hzero (hswapped.1 hzero')
      exact hone'.trans (status_perform_compare hzero).symm

/-! ### Two saved snapshots -/

/-- A session in a directory that holds two saved snapshots. -/
def saved (l r : Snapshot) : Session :=
  ⟨⟨.directory none
    [(encode "l.xml", .file (Document.writeBytes ⟨"", ""⟩ l) 0 none),
      (encode "r.xml", .file (Document.writeBytes ⟨"", ""⟩ r) 0 none)], [], true⟩, ⟨"", ""⟩, 0⟩

variable {l r : Snapshot}

theorem node_saved_left : (saved l r).tree.node (encode "l.xml") =
    .ok (.file (Document.writeBytes ⟨"", ""⟩ l) 0 none) :=
  FileTree.node_of_entry rfl rfl (by decide) (by decide) (by decide) rfl nofun

theorem node_saved_right : (saved l r).tree.node (encode "r.xml") =
    .ok (.file (Document.writeBytes ⟨"", ""⟩ r) 0 none) :=
  FileTree.node_of_entry rfl rfl (by decide) (by decide) (by decide) rfl nofun

theorem isDirectory_of_node {t : FileTree} {path content : Bytes} {modified : Int} {mode : Mode}
    (h : t.node path = .ok (.file content modified mode)) : t.isDirectory path = false := by
  rw [FileTree.isDirectory, h]
  rfl

theorem load_saved {path : Bytes} {snapshot : Snapshot}
    (h : (saved l r).tree.node path = .ok (.file (Document.writeBytes ⟨"", ""⟩ snapshot) 0 none))
    (htimes : Record.firstTimeFault? 1 snapshot.files = none) :
    (saved l r).tree.load path = .ok snapshot := by
  have hread := Document.readBytes_writeBytes ⟨"", ""⟩ snapshot
  rw [htimes] at hread
  rw [FileTree.load, FileTree.openPath, h]
  exact hread

/-- The snapshot of one file of three bytes. -/
def threeBytes (name digest : String) : Snapshot :=
  ⟨name, [⟨.of "a", some 3, none, some digest, none⟩], List.pairwise_singleton _ _⟩

def twoContents : Session := saved (threeBytes "" "x") (threeBytes "b" "y")

/-- Two files of one size and of different content differ, unless the content is not checked; then
neither way round. -/
theorem status_compare_saved :
    (twoContents.run ["compare", "l.xml", "r.xml"]).status ≠ 0 ∧
    (twoContents.run ["compare", "l.xml", "r.xml", "--no-md5", "--format=json"]).status = 0 ∧
    Report.ofJson
      (twoContents.run ["compare", "l.xml", "r.xml", "--no-md5", "--format=json"]).output =
        .ok ⟨"l.xml", "b", [], [], []⟩ ∧
    (twoContents.run ["compare", "r.xml", "l.xml", "--no-md5"]).status = 0 := by
  have hl : twoContents.tree.load (encode "l.xml") = .ok (threeBytes "" "x") :=
    load_saved node_saved_left rfl
  have hr : twoContents.tree.load (encode "r.xml") = .ok (threeBytes "b" "y") :=
    load_saved node_saved_right rfl
  have hleft : twoContents.tree.isDirectory (encode "l.xml") = false :=
    isDirectory_of_node node_saved_left
  have hright : twoContents.tree.isDirectory (encode "r.xml") = false :=
    isDirectory_of_node node_saved_right
  have hreadAll : CommandLine.read ["compare", "l.xml", "r.xml"] =
      .ok ⟨.compare "l.xml" "r.xml" .table ⟨.all, [], [], [], false, 4, .abort⟩, false⟩ := by rfl
  have hreadSome : CommandLine.read ["compare", "l.xml", "r.xml", "--no-md5", "--format=json"] =
      .ok ⟨.compare "l.xml" "r.xml" .json
        ⟨.set .all .md5 false, [], [], [], false, 4, .abort⟩, false⟩ := by rfl
  have hreadSwapped : CommandLine.read ["compare", "r.xml", "l.xml", "--no-md5"] =
      .ok ⟨.compare "r.xml" "l.xml" .table
        ⟨.set .all .md5 false, [], [], [], false, 4, .abort⟩, false⟩ := by rfl
  obtain ⟨hall, -⟩ := status_compare_files hreadAll rfl hleft hright
  obtain ⟨hsome, hjson, hswapped⟩ := status_compare_files hreadSome rfl hleft hright
  have hequal := hsome.2 ⟨_, _, hl, hr, Policy.isEqual_iff_matches.1 (by decide +kernel)⟩
  refine ⟨?_, hequal, (hjson rfl _ _ hl hr).trans (by decide +kernel),
    (hswapped _ _ _ hreadSwapped).trans hequal⟩
  intro hzero
  obtain ⟨l, r, hl', hr', hmatch⟩ := hall.1 hzero
  obtain rfl := Except.ok.inj (hl.symm.trans hl')
  obtain rfl := Except.ok.inj (hr.symm.trans hr')
  exact absurd (hmatch.values "a" _ _ rfl rfl .md5 rfl) (by decide)

end Session

end FileCensus
