import FileCensus.Proofs.FileComparison

/-!
# Which files a command changes

Taking a snapshot first reads its options, then scans, then opens the output, which empties it, and
then writes the document. Every step that can fail comes before the first that changes a file. So a
snapshot that cannot be taken leaves all files as they were, and one that is taken changes only the
file to which the output leads. No other command changes a file.
-/

namespace FileCensus

open Utf8 (encode)

namespace FileTree

/-- The location at which a file can be written, and the mode it has then. -/
def writable (t : FileTree) (path : Bytes) : Except IoFault (Location × Mode) :=
  match t.resolve .creatable path with
  | .error cause => .error cause
  | .ok location => (t.writableMode location).map (location, ·)

/-- The tree with a file in a place. -/
def putFileAt (t : FileTree) (place : Location × Mode) (content : Bytes) (now : Int) : FileTree :=
  { t with root := Node.put (.file content now place.2) place.1 t.root }

theorem putFileAt_putFileAt (t : FileTree) (place : Location × Mode) (old content : Bytes)
    (before now : Int) :
    (t.putFileAt place old before).putFileAt place content now = t.putFileAt place content now := by
  simp only [putFileAt, Node.put_put]

/-- Only finding the place can fail. -/
theorem write_eq (t : FileTree) (path content : Bytes) (now : Int) :
    t.write path content now = (t.writable path).map (t.putFileAt · content now) := by
  rw [write, writable]
  cases t.resolve .creatable path with
  | error cause => rfl
  | ok location =>
    simp only []
    cases t.writableMode location <;> rfl

end FileTree

/-- A snapshot that is to be taken of a directory. -/
structure Taking where
  session : Session
  directory : String
  output : String
  name : Option String
  options : CheckOptions

/-- How far it has come, with what is needed later. -/
inductive Taking.Stage where
  | begun
  | configured (settings : ScanSettings)
  | scanned (snapshot : Snapshot)
  | opened (document : Bytes) (place : Location × Mode)
  | written

/-- The stage and the files at one moment. -/
structure Taking.Moment where
  stage : Stage
  tree : FileTree

namespace Taking

/-- The one step from a stage. The output is empty from the moment when it is opened. -/
def step (job : Taking) : Moment → Except Fault Moment
  | ⟨.begun, t⟩ =>
    (job.options.settings (encode job.directory)).map fun settings =>
      ⟨.configured { settings with output := some (encode job.output) }, t⟩
  | ⟨.configured settings, t⟩ =>
    (t.scanChecked settings (job.name.getD (t.defaultName job.directory))).map fun snapshot =>
      ⟨.scanned snapshot, t⟩
  | ⟨.scanned snapshot, t⟩ =>
    ((t.writable (encode job.output)).mapError .io).map fun place =>
      ⟨.opened (Document.writeBytes job.session.origin snapshot) place,
        t.putFileAt place [] job.session.now⟩
  | ⟨.opened document place, t⟩ => .ok ⟨.written, t.putFileAt place document job.session.now⟩
  | ⟨.written, t⟩ => .ok ⟨.written, t⟩

/-- Some steps lead from one moment to another. -/
inductive Reaches (job : Taking) : Moment → Moment → Prop
  | here (m : Moment) : Reaches job m m
  | next {m m' last : Moment} (hstep : job.step m = .ok m') (h : Reaches job m' last) :
    Reaches job m last

def start (job : Taking) : Moment := ⟨.begun, job.session.tree⟩

/-- What the whole is meant to come to. -/
def result (job : Taking) : Except Fault FileTree :=
  job.session.take job.directory job.output job.name job.options

/-- The snapshot that the scan for the job gives. -/
def Scans (job : Taking) (snapshot : Snapshot) : Prop :=
  ∃ settings, job.options.settings (encode job.directory) = .ok settings ∧
    job.session.tree.scanChecked { settings with output := some (encode job.output) }
      (job.name.getD (job.session.tree.defaultName job.directory)) = .ok snapshot

/-- What holds of a moment: nothing has changed before the output is opened, and it is the only thing
that is changed then. -/
def Holds (job : Taking) : Moment → Prop
  | ⟨.begun, t⟩ => t = job.session.tree
  | ⟨.configured settings, t⟩ => t = job.session.tree ∧
    ∃ own, job.options.settings (encode job.directory) = .ok own ∧
      settings = { own with output := some (encode job.output) }
  | ⟨.scanned snapshot, t⟩ => t = job.session.tree ∧ job.Scans snapshot
  | ⟨.opened document place, t⟩ =>
    ∃ snapshot, job.Scans snapshot ∧ document = Document.writeBytes job.session.origin snapshot ∧
      job.session.tree.writable (encode job.output) = .ok place ∧
      t = job.session.tree.putFileAt place [] job.session.now
  | ⟨.written, t⟩ => job.result = .ok t

variable {job : Taking} {m m' : Moment} {fault : Fault}

theorem result_of_scans {snapshot : Snapshot} (h : job.Scans snapshot) :
    job.result = (job.session.tree.write (encode job.output)
      (Document.writeBytes job.session.origin snapshot) job.session.now).mapError .io := by
  obtain ⟨settings, hsettings, hscan⟩ := h
  simp only [result, Session.take, hsettings, hscan]

theorem Holds.step (h : job.Holds m) (hstep : job.step m = .ok m') : job.Holds m' := by
  obtain ⟨stage, t⟩ := m
  cases stage with
  | begun =>
    obtain ⟨settings, hsettings, rfl⟩ := exists_of_map_ok hstep
    exact ⟨h, settings, hsettings, rfl⟩
  | configured settings =>
    obtain ⟨snapshot, hscan, rfl⟩ := exists_of_map_ok hstep
    obtain ⟨rfl, own, hown, rfl⟩ := h
    exact ⟨rfl, own, hown, hscan⟩
  | scanned snapshot =>
    obtain ⟨place, hplace, rfl⟩ := exists_of_map_ok hstep
    obtain ⟨rfl, hscans⟩ := h
    exact ⟨snapshot, hscans, rfl, mapError_eq_ok.1 hplace, rfl⟩
  | opened document place =>
    obtain ⟨snapshot, hscans, rfl, hplace, rfl⟩ := h
    obtain rfl := Except.ok.inj hstep
    -- The document takes the place of the empty file.
    rw [Holds, result_of_scans hscans, FileTree.write_eq, hplace, FileTree.putFileAt_putFileAt]
    rfl
  | written =>
    obtain rfl := Except.ok.inj hstep
    exact h

theorem Holds.reaches (h : job.Holds m) (hreaches : job.Reaches m m') : job.Holds m' := by
  induction hreaches with
  | here => exact h
  | next hstep _ ih => exact ih (h.step hstep)

/-- A step fails only while the files are as they were. -/
theorem Holds.of_error (h : job.Holds m) (hstep : job.step m = .error fault) :
    m.tree = job.session.tree ∧ job.result = .error fault := by
  obtain ⟨stage, t⟩ := m
  cases stage with
  | begun =>
    have hsettings := error_of_map_error hstep
    exact ⟨h, by simp only [result, Session.take, hsettings]⟩
  | configured settings =>
    obtain ⟨rfl, own, hown, rfl⟩ := h
    have hscan := error_of_map_error hstep
    exact ⟨rfl, by simp only [result, Session.take, hown, hscan]⟩
  | scanned snapshot =>
    obtain ⟨rfl, hscans⟩ := h
    refine ⟨rfl, ?_⟩
    have hplace := error_of_map_error hstep
    rw [result_of_scans hscans, FileTree.write_eq]
    cases hwritable : job.session.tree.writable (encode job.output) with
    | error cause =>
      rw [hwritable] at hplace
      exact congrArg Except.error (Except.error.inj hplace)
    | ok place =>
      rw [hwritable] at hplace
      cases hplace
  | opened document place => cases hstep
  | written => cases hstep

/-- How many steps there are from a stage to the end. -/
def Stage.left : Stage → Nat
  | .begun => 4
  | .configured _ => 3
  | .scanned _ => 2
  | .opened .. => 1
  | .written => 0

theorem left_step (hstep : job.step m = .ok m') : m'.stage.left = m.stage.left - 1 := by
  obtain ⟨stage, t⟩ := m
  cases stage with
  | begun =>
    obtain ⟨settings, -, rfl⟩ := exists_of_map_ok hstep
    rfl
  | configured settings =>
    obtain ⟨snapshot, -, rfl⟩ := exists_of_map_ok hstep
    rfl
  | scanned snapshot =>
    obtain ⟨place, -, rfl⟩ := exists_of_map_ok hstep
    rfl
  | opened document place =>
    obtain rfl := Except.ok.inj hstep
    rfl
  | written =>
    obtain rfl := Except.ok.inj hstep
    rfl

/-- From every moment the steps lead to a last one, at which all is written or the next step fails. -/
theorem exists_last (m : Moment) : ∃ last, job.Reaches m last ∧
    (last.stage = .written ∨ ∃ fault, job.step last = .error fault) := by
  induction hleft : m.stage.left generalizing m with
  | zero =>
    refine ⟨m, .here m, .inl ?_⟩
    obtain ⟨stage, t⟩ := m
    cases stage <;> simp [Stage.left] at hleft ⊢
  | succ left ih =>
    cases hstep : job.step m with
    | error fault => exact ⟨m, .here m, .inr ⟨fault, hstep⟩⟩
    | ok next =>
      have hnext := left_step hstep
      obtain ⟨last, hreaches, hlast⟩ := ih next (by omega)
      exact ⟨last, .next hstep hreaches, hlast⟩

/-- The steps end either at a fault with all files as they were, or with what is meant. -/
theorem exists_end (job : Taking) : ∃ last, job.Reaches job.start last ∧
    ((∃ fault, job.step last = .error fault ∧ last.tree = job.session.tree ∧
        job.result = .error fault) ∨
      (last.stage = .written ∧ job.result = .ok last.tree)) := by
  obtain ⟨last, hreaches, hlast⟩ := job.exists_last job.start
  have hstart : job.Holds job.start := rfl
  have hholds := hstart.reaches hreaches
  refine ⟨last, hreaches, ?_⟩
  rcases hlast with hwritten | ⟨fault, hstep⟩
  · obtain ⟨stage, t⟩ := last
    obtain rfl : stage = .written := hwritten
    exact .inr ⟨rfl, hholds⟩
  · obtain ⟨htree, hresult⟩ := hholds.of_error hstep
    exact .inl ⟨fault, hstep, htree, hresult⟩

/-- What was written is the document of the snapshot that was scanned, and nothing else changed. -/
theorem rewritten_of_result {tree : FileTree} (h : job.result = .ok tree) :
    ∃ snapshot location mode, job.Scans snapshot ∧
      job.session.tree.resolve .creatable (encode job.output) = .ok location ∧
      job.session.tree.Rewritten tree location
        (.file (Document.writeBytes job.session.origin snapshot) job.session.now mode) := by
  obtain ⟨settings, snapshot, hsettings, hscan, hwrite⟩ := Session.take_eq_ok.1 h
  obtain ⟨location, mode, hlocation, -, hw⟩ := FileTree.rewritten_of_write hwrite
  exact ⟨snapshot, location, mode, ⟨settings, hsettings, hscan⟩, hlocation, hw⟩

end Taking

namespace Session

section

variable {s : Session} {directory output : String} {name : Option String} {options : CheckOptions}

theorem perform_take_error {fault : Fault} (h : s.take directory output name options = .error fault) :
    s.perform (.take directory output name options) = s.fail fault := by
  simp only [perform, h]

theorem perform_take_ok {tree : FileTree} (h : s.take directory output name options = .ok tree) :
    s.perform (.take directory output name options) = ⟨0, "", "", tree⟩ := by
  simp only [perform, h]

end

/-- Taking a snapshot fails only at a step before which nothing was changed. If it does not, the one
file to which the output leads is changed, and it holds the document of what was scanned. Every other
run leaves all files as they were. -/
theorem files_of_run (s : Session) (words : List String) :
    (∀ directory output name options verbose,
      CommandLine.read words = .ok ⟨.take directory output name options, verbose⟩ →
      let job : Taking := ⟨s, directory, output, name, options⟩
      ∃ last, job.Reaches job.start last ∧ (s.run words).tree = last.tree ∧
        ((s.run words).status ≠ 0 → last.tree = s.tree ∧
          ∃ fault, job.step last = .error fault ∧ (s.run words).message = fault.message) ∧
        ((s.run words).status = 0 → last.stage = .written ∧
          ∃ snapshot location mode, job.Scans snapshot ∧
            s.tree.resolve .creatable (encode output) = .ok location ∧
            s.tree.Rewritten last.tree location
              (.file (Document.writeBytes s.origin snapshot) s.now mode) ∧
            last.tree.node (encode output) =
              .ok (.file (Document.writeBytes s.origin snapshot) s.now mode))) ∧
    ((∀ directory output name options verbose,
      CommandLine.read words ≠ .ok ⟨.take directory output name options, verbose⟩) →
        (s.run words).tree = s.tree) := by
  constructor
  · intro directory output name options verbose hread job
    obtain ⟨last, hreaches, ⟨fault, hstep, htree, hresult⟩ | ⟨hwritten, hresult⟩⟩ := job.exists_end
    · rw [run_of_read hread, perform_take_error hresult]
      exact ⟨last, hreaches, htree.symm, fun _ => ⟨htree, fault, hstep, rfl⟩, fun h =>
        absurd h Nat.one_ne_zero⟩
    · obtain ⟨snapshot, location, mode, hscans, hlocation, hw⟩ := Taking.rewritten_of_result hresult
      have hnode := FileTree.node_written hw hlocation
      rw [run_of_read hread, perform_take_ok hresult]
      exact ⟨last, hreaches, rfl, fun h => absurd rfl h, fun _ =>
        ⟨hwritten, snapshot, location, mode, hscans, hlocation, hw, hnode⟩⟩
  · intro hother
    rw [run]
    cases hread : CommandLine.read words with
    | error fault => cases fault <;> rfl
    | ok line =>
      obtain ⟨command, verbose⟩ := line
      cases command with
      | take directory output name options => exact absurd hread (hother _ _ _ _ _)
      | compare left right format options =>
        simp only [perform]
        cases s.compare left right options with
        | error fault => rfl
        | ok report => rfl
      | completions shell => rfl

/-- A rule that cannot be parsed keeps the snapshot that is there, and so does a comparison. Where
nothing is wrong, the output holds a document afterwards. -/
theorem files_of_run_saved :
    (twoContents.run ["take", ".", "-o", "l.xml", "--rule", "size"]).status = 1 ∧
    (twoContents.run ["take", ".", "-o", "l.xml", "--rule", "size"]).tree = twoContents.tree ∧
    (twoContents.run ["compare", "l.xml", "r.xml"]).tree = twoContents.tree ∧
    (bare.run ["take"]).status = 0 ∧
    ∃ snapshot mode, (bare.run ["take"]).tree.node (encode ".dirsnap.xml") =
      .ok (.file (Document.writeBytes ⟨"", ""⟩ snapshot) 0 mode) := by
  have hread : CommandLine.read ["take", ".", "-o", "l.xml", "--rule", "size"] =
      .ok ⟨.take "." "l.xml" none ⟨.all, ["size"], [], [], false, 4, .abort⟩, false⟩ := by rfl
  have hreadCompare : CommandLine.read ["compare", "l.xml", "r.xml"] =
      .ok ⟨.compare "l.xml" "r.xml" .table bareOptions, false⟩ := by rfl
  have hreadBare : CommandLine.read ["take"] =
      .ok ⟨.take "." ".dirsnap.xml" none bareOptions, false⟩ := by rfl
  have hstatus : (twoContents.run ["take", ".", "-o", "l.xml", "--rule", "size"]).status = 1 := by
    rw [run_of_read hread]
    rfl
  have htaken : (bare.run ["take"]).status = 0 := by
    obtain ⟨content, htake⟩ := take_bare
    rw [run_of_read hreadBare, perform_take_ok htake]
  obtain ⟨last, -, htree, hfailed, -⟩ := (files_of_run twoContents _).1 _ _ _ _ _ hread
  obtain ⟨last', -, htree', -, hwritten⟩ := (files_of_run bare _).1 _ _ _ _ _ hreadBare
  obtain ⟨-, snapshot, location, mode, -, -, -, hnode⟩ := hwritten htaken
  have hother : ∀ directory output name options verbose, CommandLine.read ["compare", "l.xml", "r.xml"] ≠
      .ok ⟨.take directory output name options, verbose⟩ := by
    intro directory output name options verbose h
    rw [hreadCompare] at h
    cases h
  refine ⟨hstatus, htree.trans (hfailed ?_).1, (files_of_run twoContents _).2 hother, htaken,
    snapshot, mode, ?_⟩
  · rw [hstatus]
    exact Nat.one_ne_zero
  · rw [htree']
    exact hnode

end Session

end FileCensus
