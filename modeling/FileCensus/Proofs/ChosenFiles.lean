import FileCensus.Proofs.RecordedPaths
import FileCensus.Proofs.ScanRecords
import FileCensus.Proofs.SecondScan

/-!
# The files that a scan chooses

Without ignore files, what a scan records is said by the names below its target alone: a regular file
is recorded unless a name on the way to it is always ignored, it is the output, or its own name is
ignored or not included. The names above the target play no part.
-/

namespace FileCensus

namespace FileTree

variable {t : FileTree} {keeps : Path.Name → Bool}

/-- A walk that lists every directory it comes to finds all files that it reaches over names that are
kept. -/
theorem mem_walk_byName {n : Node} (hd : n.Distinct) {reachable : Bool} {here l : Location}
    (hlisted : ∀ l, .unlisted l ∉ t.walk (.byName keeps) reachable here n) :
    .file l ∈ t.walk (.byName keeps) reachable here n ↔
      ∃ rest, l = here ++ rest ∧ (∀ name ∈ rest, keeps name) ∧
        ∃ content modified mode, n.at? rest = some (.file content modified mode) := by
  induction n using Node.induct_entries generalizing reachable here with
  | h n ih =>
    cases n with
    | file content modified mode =>
      rw [walk, List.mem_singleton, Found.file.injEq]
      constructor
      · rintro rfl
        exact ⟨[], (List.append_nil _).symm, fun _ h => absurd h List.not_mem_nil, content, modified,
          mode, rfl⟩
      · rintro ⟨rest, rfl, -, content', modified', mode', hat⟩
        obtain ⟨rfl, -⟩ := (Node.at?_of_bare rfl).1 hat
        exact List.append_nil _
    | link target =>
      rw [walk]
      constructor
      · exact fun h => absurd h List.not_mem_nil
      · rintro ⟨rest, -, -, content, modified, mode, hat⟩
        exact Node.noConfusion ((Node.at?_of_bare rfl).1 hat).2
    | directory mode entries =>
      have hnames := hd [] mode entries rfl
      by_cases hlist : (reachable && t.canList mode) = true
      · rw [walk, if_pos hlist] at hlisted ⊢
        have hchild : ∀ {name child}, (name, child) ∈ entries → keeps name →
            (.file l ∈ t.walk (.byName keeps) (t.allows mode .search) (here ++ [name]) child ↔
              ∃ rest, l = here ++ [name] ++ rest ∧ (∀ name ∈ rest, keeps name) ∧
                ∃ content modified mode, child.at? rest = some (.file content modified mode)) := by
          intro name child hmem hkeep
          refine ih name child hmem (hd.child ((Node.findEntry_eq_some hnames).2 hmem)) ?_
          intro l' hunlisted
          exact hlisted l' (mem_walkEntries.2 ⟨name, child, hmem, hkeep, hunlisted⟩)
        rw [mem_walkEntries]
        constructor
        · rintro ⟨name, child, hmem, hkeep, h⟩
          obtain ⟨rest, rfl, hrest, hat⟩ := (hchild hmem hkeep).1 h
          refine ⟨name :: rest, by simp, List.forall_mem_cons.2 ⟨hkeep, hrest⟩, ?_⟩
          rw [Node.at?_cons, Node.entries, (Node.findEntry_eq_some hnames).2 hmem]
          exact hat
        · rintro ⟨rest, rfl, hrest, hat⟩
          cases rest with
          | nil => simp at hat
          | cons name rest =>
            obtain ⟨hkeep, hrest⟩ := List.forall_mem_cons.1 hrest
            obtain ⟨content, modified, mode', hat⟩ := hat
            rw [Node.at?_cons, Node.entries] at hat
            obtain ⟨child, hentry, hat⟩ := Option.bind_eq_some_iff.1 hat
            have hmem := (Node.findEntry_eq_some hnames).1 hentry
            refine ⟨name, child, hmem, hkeep, (hchild hmem hkeep).2 ?_⟩
            exact ⟨rest, by simp, hrest, content, modified, mode', hat⟩
      · rw [walk, if_neg hlist] at hlisted
        exact absurd (List.mem_singleton.2 rfl) (hlisted here)

end FileTree

namespace ScanSettings

/-- A scan meets no fault: it can list every directory that it enters and capture every file that it
selects. -/
structure MeetsNoFault (s : ScanSettings) (t : FileTree) (root : Location)
    (reads : Location → Reads) : Prop where
  listed : ∀ here, .unlisted here ∉ s.found t root
  captured : ∀ here ∈ s.selected t root, ∃ r, s.capture reads here = .ok r

/-- The output of a scan stands where the path above its last name leads to, under that name. If it is
a link there, the link is not followed. -/
def IsOutput (s : ScanSettings) (t : FileTree) (location : Location) : Prop :=
  ∃ output, s.output = some output ∧ ∃ name above, Path.fileName output = some name ∧
    t.resolve .existing (if Path.parent output = [] then Utf8.encode "." else Path.parent output) =
      .ok above ∧ above ++ [name] = location

/-- The files below the target that a scan without ignore files has to record, by their locations
below it. -/
structure Chooses (s : ScanSettings) (t : FileTree) (root here : Location) : Prop where
  below : here ≠ []
  isFile : ∃ content modified mode, t.root.at? (root ++ here) = some (.file content modified mode)
  kept : ∀ name ∈ here, ∀ pattern ∈ alwaysIgnored,
    Glob.isMatch pattern (Utf8.decodeLossy name) = false
  notOutput : ¬s.IsOutput t (root ++ here)
  notIgnored : ∀ pattern ∈ s.ignorePatterns,
    Glob.isMatch pattern (Utf8.decodeLossy (here.getLast below)) = false
  included : s.includePatterns = [] ∨ ∃ pattern ∈ s.includePatterns,
    Glob.isMatch pattern (Utf8.decodeLossy (here.getLast below))

variable {s : ScanSettings} {t : FileTree} {root here : Location} {reads : Location → Reads}

theorem matchesAny_eq_false {patterns : List String} {name : String} :
    matchesAny patterns name = false ↔ ∀ pattern ∈ patterns, Glob.isMatch pattern name = false := by
  simp [matchesAny]

theorem includes_iff {name : String} : s.includes name ↔
    s.includePatterns = [] ∨ ∃ pattern ∈ s.includePatterns, Glob.isMatch pattern name := by
  simp [includes, matchesAny]

theorem isOutput_iff {location : Location} :
    s.IsOutput t location ↔ s.outputLocation? t = some location := by
  have hdot : Path.dot = Utf8.encode "." := by decide
  simp only [IsOutput, outputLocation?, Option.bind_eq_some_iff, FileTree.entryLocation?_eq_some,
    List.isEmpty_iff, hdot]

theorem takes_iff (hbelow : here ≠ []) : s.takes t (root ++ here) ↔
    ¬s.IsOutput t (root ++ here) ∧
      (∀ pattern ∈ s.ignorePatterns,
        Glob.isMatch pattern (Utf8.decodeLossy (here.getLast hbelow)) = false) ∧
      (s.includePatterns = [] ∨ ∃ pattern ∈ s.includePatterns,
        Glob.isMatch pattern (Utf8.decodeLossy (here.getLast hbelow))) := by
  have hname : (root ++ here).getLastD [] = here.getLast hbelow := by
    rw [List.getLastD_eq_getLast?, List.getLast?_append, List.getLast?_eq_some_getLast hbelow]
    rfl
  rw [← includes_iff, ← matchesAny_eq_false, takes, hname, isOutput_iff]
  simp only [Bool.and_eq_true, Bool.not_eq_true', decide_eq_false_iff_not, ignores, and_assoc]

/-- Without ignore files a scan that lists every directory selects the files that it has to record. -/
theorem mem_selected_iff (hd : t.root.Distinct) (hnames : s.respectsIgnoreFiles = false)
    (hlisted : ∀ here, .unlisted here ∉ s.found t root) :
    here ∈ s.selected t root ↔ s.Chooses t root here := by
  have hfound : .file here ∈ s.found t root ↔ here ≠ [] ∧ (∀ name ∈ here, !isAlwaysIgnored name) ∧
      ∃ content modified mode, t.root.at? (root ++ here) = some (.file content modified mode) := by
    have hfilter : s.filter t root = .byName fun name => !isAlwaysIgnored name := by
      rw [filter, hnames, if_neg Bool.false_ne_true]
    rw [Node.at?_append]
    cases hroot : t.root.at? root with
    | none =>
      rw [found, hroot]
      simp
    | some n =>
      by_cases hdirectory : n.isDirectory
      · rw [found, hroot] at hlisted ⊢
        simp only [hdirectory, Bool.true_or, if_true, hfilter] at hlisted ⊢
        rw [FileTree.mem_walk_byName (hd.at? hroot) hlisted]
        constructor
        · rintro ⟨rest, rfl, hkept, content, modified, mode, hat⟩
          refine ⟨?_, hkept, content, modified, mode, hat⟩
          rintro rfl
          rw [Node.at?_nil] at hat
          rw [Option.some.inj hat] at hdirectory
          exact Bool.noConfusion hdirectory
        · rintro ⟨-, hkept, hat⟩
          exact ⟨here, rfl, hkept, hat⟩
      · have hnone : s.found t root = [] := by
          rw [found, hroot]
          simp [hdirectory, hnames]
        have hbare : n.entries = [] := by
          cases n with
          | file content modified mode => rfl
          | link target => rfl
          | directory mode entries => exact absurd rfl hdirectory
        rw [hnone]
        constructor
        · exact fun h => absurd h List.not_mem_nil
        · rintro ⟨hbelow, -, content, modified, mode, hat⟩
          exact absurd ((Node.at?_of_bare hbare).1 hat).1 hbelow
  rw [mem_selected, hfound]
  simp only [isAlwaysIgnored, Bool.not_eq_true', matchesAny_eq_false]
  constructor
  · rintro ⟨⟨hbelow, hkept, hfile⟩, htakes⟩
    obtain ⟨houtput, hignored, hincluded⟩ := (takes_iff hbelow).1 htakes
    exact ⟨hbelow, hfile, hkept, houtput, hignored, hincluded⟩
  · intro h
    exact ⟨⟨h.below, h.kept, h.isFile⟩, (takes_iff h.below).2 ⟨h.notOutput, h.notIgnored, h.included⟩⟩

/-- Without ignore files a scan that meets no fault gives a snapshot of exactly the files that it has
to record, under their paths seen from the target. One that must not leave out anything gives a
snapshot only if it meets no fault. -/
theorem scanWith_paths (hs : t.Sound) (hnames : s.respectsIgnoreFiles = false)
    (hroot : t.resolve .existing s.target = .ok root) (operations : Location → Reads)
    (name : String) (before : Statistics) :
    (s.MeetsNoFault t root (fun here => operations (root ++ here)) →
      ∃ snapshot, (s.scanWith t operations name before).map ScanResult.snapshot = .ok snapshot ∧
        ∀ path, path ∈ snapshot.paths ↔
          ∃ here, s.Chooses t root here ∧ Path.relative root.path (root ++ here).path = path) ∧
    (s.onFailure = .abort →
      ((∃ snapshot, (s.scanWith t operations name before).map ScanResult.snapshot = .ok snapshot) ↔
        s.MeetsNoFault t root fun here => operations (root ++ here))) := by
  have hscan : s.scanWith t operations name before =
      s.scanAt t root (fun here => operations (root ++ here)) name before := by
    rw [scanWith, hroot]
  rw [hscan]
  constructor
  · intro h
    refine ⟨_, scanAt_eq_ok.2 ⟨fun _ => ⟨h.listed, h.captured⟩, rfl⟩, fun path => ?_⟩
    rw [mem_paths_gathered]
    refine exists_congr fun here => ?_
    rw [← mem_selected_iff hs.distinct hnames h.listed]
    refine and_congr_right fun hmem => ?_
    obtain ⟨content, modified, mode, hat⟩ :=
      ((mem_selected_iff hs.distinct hnames h.listed).1 hmem).isFile
    obtain ⟨habove, hbelow⟩ := List.forall_mem_append.1 (hs.isName hat)
    rw [Path.relative_path habove hbelow]
    exact and_iff_left (h.captured here hmem)
  · intro habort
    simp only [scanAt_eq_ok, exists_and_left, exists_eq', and_true]
    constructor
    · intro h
      obtain ⟨hlisted, hcaptured⟩ := h habort
      exact ⟨hlisted, hcaptured⟩
    · exact fun h _ => ⟨h.listed, h.captured⟩

/-! ### A project -/

/-- Three names that normalization makes one path, an object file, a file below a name that is always
ignored, and an earlier output. -/
def projectTree : FileTree :=
  ⟨.directory none
    [(Utf8.encode ".git", .directory none [(Utf8.encode "config", .file [] 0 none)]),
      (Utf8.encode "census.xml", .file [] 0 none),
      (Utf8.encode "src", .directory none
        [(Utf8.encode "a.c", .file [] 0 none), (Utf8.encode "a.o", .file [] 0 none)]),
      (Utf8.encode "src\\\\a.c", .file [] 0 none),
      (Utf8.encode "src\\a.c", .file [] 0 none)], [], true⟩

def projectSettings (includePatterns : List String) : ScanSettings :=
  ⟨Utf8.encode ".", some (Utf8.encode "census.xml"), .everything, ["*.o"], includePatterns, false, 4,
    .abort⟩

def projectReads : Reads :=
  ⟨.ok 3, .ok 5, fun _ => .ok "d", .error (.unsupported .permissions "a.c")⟩

theorem sound_project : projectTree.Sound := by
  refine FileTree.sound_of_directories (Node.forall_directories (by decide +kernel) ?_)
  simp only [List.forall_mem_cons, List.not_mem_nil, false_implies, implies_true, and_true]
  refine ⟨Node.forall_directories (by decide +kernel) ?_, Node.forall_directories_of_bare rfl,
    Node.forall_directories (by decide +kernel) ?_, Node.forall_directories_of_bare rfl,
    Node.forall_directories_of_bare rfl⟩
  · simp only [List.forall_mem_cons, List.not_mem_nil, false_implies, implies_true, and_true]
    exact Node.forall_directories_of_bare rfl
  · simp only [List.forall_mem_cons, List.not_mem_nil, false_implies, implies_true, and_true]
    exact ⟨Node.forall_directories_of_bare rfl, Node.forall_directories_of_bare rfl⟩

theorem resolve_project : projectTree.resolve .existing (Utf8.encode ".") = .ok [] :=
  FileTree.resolve_eq_ok.2 ⟨by decide, by decide, by decide, .dot rfl rfl .done⟩

theorem outputLocation_project (includePatterns : List String) :
    (projectSettings includePatterns).outputLocation? projectTree =
      some [Utf8.encode "census.xml"] := by
  have hparent : Path.parent (Utf8.encode "census.xml") = [] := by decide +kernel
  refine isOutput_iff.1 ⟨_, rfl, Utf8.encode "census.xml", [], by decide +kernel, ?_, rfl⟩
  rw [hparent, if_pos rfl, resolve_project]

theorem found_project (includePatterns : List String) :
    (projectSettings includePatterns).found projectTree [] =
      [.file [Utf8.encode "census.xml"], .file [Utf8.encode "src", Utf8.encode "a.c"],
        .file [Utf8.encode "src", Utf8.encode "a.o"], .file [Utf8.encode "src\\\\a.c"],
        .file [Utf8.encode "src\\a.c"]] := by
  have hfound : (projectSettings includePatterns).found projectTree [] =
      (projectSettings []).found projectTree [] := rfl
  rw [hfound]
  decide +kernel

theorem meetsNoFault_project (includePatterns : List String) :
    (projectSettings includePatterns).MeetsNoFault projectTree [] fun _ => projectReads where
  listed := by
    rw [found_project]
    simp
  captured here _ := ⟨_, rfl⟩

theorem selected_project : (projectSettings []).selected projectTree [] =
    [[Utf8.encode "src", Utf8.encode "a.c"], [Utf8.encode "src\\\\a.c"],
      [Utf8.encode "src\\a.c"]] := by
  simp only [selected, found_project, takes, outputLocation_project]
  rw [List.mergeSort_of_pairwise]
  · decide +kernel
  · decide +kernel

theorem selected_project_included : (projectSettings ["a.c"]).selected projectTree [] =
    [[Utf8.encode "src", Utf8.encode "a.c"]] := by
  simp only [selected, found_project, takes, outputLocation_project]
  rw [List.mergeSort_of_pairwise]
  · decide +kernel
  · decide +kernel

theorem relative_project : ∀ here ∈ (projectSettings []).selected projectTree [],
    Path.relative (Location.path []) (Location.path ([] ++ here)) = "src/a.c" := by
  rw [selected_project]
  decide +kernel

/-- The three files of one path make the one record of the project. The output and the file below the
ignored name are files of the project too. -/
theorem scanWith_paths_project :
    (∃ snapshot, ((projectSettings []).scanWith projectTree (fun _ => projectReads) "" .none).map
        ScanResult.snapshot = .ok snapshot ∧ ∀ path, path ∈ snapshot.paths ↔ path = "src/a.c") ∧
    (∃ content modified mode, projectTree.root.at? [Utf8.encode "census.xml"] =
      some (.file content modified mode)) ∧
    ∃ content modified mode, projectTree.root.at? [Utf8.encode ".git", Utf8.encode "config"] =
      some (.file content modified mode) := by
  refine ⟨?_, ⟨_, _, _, rfl⟩, _, _, _, rfl⟩
  have hfault := meetsNoFault_project []
  obtain ⟨hok, -⟩ := scanWith_paths (s := projectSettings []) sound_project rfl resolve_project
    (fun _ => projectReads) "" .none
  obtain ⟨snapshot, hsnapshot, hpaths⟩ := hok hfault
  refine ⟨snapshot, hsnapshot, fun path => ?_⟩
  rw [hpaths]
  simp only [← mem_selected_iff sound_project.distinct rfl hfault.listed]
  constructor
  · rintro ⟨here, hmem, rfl⟩
    exact relative_project here hmem
  · rintro rfl
    have hmem : [Utf8.encode "src", Utf8.encode "a.c"] ∈
        (projectSettings []).selected projectTree [] := by
      rw [selected_project]
      exact List.mem_cons_self
    exact ⟨_, hmem, relative_project _ hmem⟩

end ScanSettings

end FileCensus
