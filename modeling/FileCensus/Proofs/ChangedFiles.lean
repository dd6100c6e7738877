import FileCensus.Proofs.Resolution

/-!
# Trees that differ in files

Two trees may differ in the files at some locations: what stands there in either of them is a file,
and everything else is the same, but for the entries of the directories around. Writing a file makes
such a difference, and so does taking files away. A path that leads to a directory in one of the trees
leads to it in the other.
-/

namespace FileCensus

namespace Node

theorem Like.symm {n n' : Node} (h : Like n n') : Like n' n := by
  cases h with
  | file content modified mode => exact .file content modified mode
  | link target => exact .link target
  | directory mode before after => exact .directory mode after before

theorem Like.trans {a b c : Node} (hab : Like a b) (hbc : Like b c) : Like a c := by
  cases hab with
  | file content modified mode => exact hbc
  | link target => exact hbc
  | directory mode before after =>
    cases hbc
    exact .directory mode before _

theorem Like.isFile {n n' : Node} (h : Like n n') : n'.isFile = n.isFile := by
  cases h <;> rfl

theorem rel_symm {n n' : Option Node} (h : Option.Rel Like n n') : Option.Rel Like n' n := by
  cases h with
  | none => exact .none
  | some h => exact .some h.symm

theorem rel_trans {a b c : Option Node} (hab : Option.Rel Like a b) (hbc : Option.Rel Like b c) :
    Option.Rel Like a c := by
  cases hab with
  | none => exact hbc
  | some hab =>
    cases hbc with
    | some hbc => exact .some (hab.trans hbc)

theorem exists_file {n : Node} (h : n.isFile) :
    ∃ content modified mode, n = .file content modified mode := by
  cases n with
  | file content modified mode => exact ⟨content, modified, mode, rfl⟩
  | link target => exact Bool.noConfusion h
  | directory mode entries => exact Bool.noConfusion h

end Node

namespace FileTree

/-- Two trees differ at most in files at the changed locations. -/
structure FilesDiffer (before after : FileTree) (changed : Location → Prop) : Prop where
  cwd : after.cwd = before.cwd
  privileged : after.privileged = before.privileged
  elsewhere : ∀ l, ¬changed l → Option.Rel Node.Like (before.root.at? l) (after.root.at? l)
  fileBefore : ∀ l, changed l → ∀ n, before.root.at? l = some n → n.isFile
  fileAfter : ∀ l, changed l → ∀ n, after.root.at? l = some n → n.isFile

namespace FilesDiffer

variable {before after third : FileTree} {changed changed' : Location → Prop} {l : Location}

theorem refl (t : FileTree) : FilesDiffer t t fun _ => False where
  cwd := rfl
  privileged := rfl
  elsewhere _ _ := Node.rel_refl _
  fileBefore _ h := h.elim
  fileAfter _ h := h.elim

theorem symm (h : FilesDiffer before after changed) : FilesDiffer after before changed where
  cwd := h.cwd.symm
  privileged := h.privileged.symm
  elsewhere l hl := Node.rel_symm (h.elsewhere l hl)
  fileBefore := h.fileAfter
  fileAfter := h.fileBefore

/-- What stands elsewhere stands there in the other tree. -/
theorem exists_like (h : FilesDiffer before after changed) (hl : ¬changed l) {n : Node}
    (hn : before.root.at? l = some n) : ∃ n', after.root.at? l = some n' ∧ n.Like n' :=
  Node.exists_of_rel (h.elsewhere l hl) hn

theorem at?_eq_none (h : FilesDiffer before after changed) (hl : ¬changed l)
    (hn : before.root.at? l = none) : after.root.at? l = none :=
  Node.eq_none_of_rel (h.elsewhere l hl) hn

theorem trans (h : FilesDiffer before after changed) (h' : FilesDiffer after third changed') :
    FilesDiffer before third fun l => changed l ∨ changed' l where
  cwd := h'.cwd.trans h.cwd
  privileged := h'.privileged.trans h.privileged
  elsewhere l hl := Node.rel_trans (h.elsewhere l fun hc => hl (.inl hc))
    (h'.elsewhere l fun hc => hl (.inr hc))
  fileBefore l hl n hn := by
    by_cases hc : changed l
    · exact h.fileBefore l hc n hn
    · obtain ⟨n', hn', hlike⟩ := h.exists_like hc hn
      rw [← hlike.isFile]
      exact h'.fileBefore l (hl.resolve_left hc) n' hn'
  fileAfter l hl n hn := by
    by_cases hc : changed' l
    · exact h'.fileAfter l hc n hn
    · obtain ⟨n', hn', hlike⟩ := h'.symm.exists_like hc hn
      rw [← hlike.isFile]
      exact h.fileAfter l (hl.resolve_right hc) n' hn'

/-- Only files change, so what is not a file stands in the other tree too. -/
theorem exists_like_of_isFile (h : FilesDiffer before after changed) {n : Node}
    (hn : before.root.at? l = some n) (hfile : n.isFile = false) :
    ∃ n', after.root.at? l = some n' ∧ n.Like n' := by
  refine h.exists_like (fun hc => ?_) hn
  rw [h.fileBefore l hc n hn] at hfile
  exact Bool.noConfusion hfile

theorem directory (h : FilesDiffer before after changed) {mode : Mode}
    {entries : List (Path.Name × Node)} (hdir : before.root.at? l = some (.directory mode entries)) :
    ∃ entries', after.root.at? l = some (.directory mode entries') := by
  obtain ⟨n, hafter, hlike⟩ := h.exists_like_of_isFile hdir rfl
  cases hlike
  exact ⟨_, hafter⟩

theorem allows (h : FilesDiffer before after changed) (mode : Mode) (right : Right) :
    after.allows mode right = before.allows mode right := by
  rw [FileTree.allows, FileTree.allows, h.privileged]

theorem any_isDirectory (h : FilesDiffer before after changed) (l : Location) :
    (after.root.at? l).any Node.isDirectory = (before.root.at? l).any Node.isDirectory := by
  have hfile : ∀ {n : Option Node}, (∀ m, n = some m → m.isFile) →
      n.any Node.isDirectory = false := by
    intro n hn
    cases n with
    | none => rfl
    | some m =>
      obtain ⟨content, modified, mode, rfl⟩ := Node.exists_file (hn m rfl)
      rfl
  by_cases hc : changed l
  · rw [hfile (h.fileBefore l hc), hfile (h.fileAfter l hc)]
  · cases hbefore : before.root.at? l with
    | none => rw [h.at?_eq_none hc hbefore]
    | some n =>
      obtain ⟨n', hafter, hlike⟩ := h.exists_like hc hbefore
      rw [hafter, Option.any_some, Option.any_some, hlike.isDirectory]

/-! ### Paths to directories -/

/-- The segments that lead to a directory lead to it in the other tree. -/
theorem leads (h : FilesDiffer before after changed) {links : Nat} {here : Location}
    {segments : List Bytes} (hleads : Leads before .existing links here segments l) {mode : Mode}
    {entries : List (Path.Name × Node)} (hdir : before.root.at? l = some (.directory mode entries)) :
    Leads after .existing links here segments l := by
  induction hleads with
  | done => exact .done
  | empty hhere hnext ih =>
    obtain ⟨entries', hafter⟩ := h.directory hhere
    exact .empty hafter (ih hdir)
  | dot hhere hsearch hnext ih =>
    obtain ⟨entries', hafter⟩ := h.directory hhere
    exact .dot hafter (by rwa [h.allows]) (ih hdir)
  | up hhere hsearch hnext ih =>
    obtain ⟨entries', hafter⟩ := h.directory hhere
    exact .up hafter (by rwa [h.allows]) (ih hdir)
  | create hhere hsearch hname hnone hlast => exact PathEnd.noConfusion hlast
  | @link links here segment rest l mode' entries' target hhere hsearch hname hend hentry hnext ih =>
    obtain ⟨entries'', hafter⟩ := h.directory hhere
    rw [← Node.at?_concat hhere] at hentry
    obtain ⟨n', hentry', hlike⟩ := h.exists_like_of_isFile hentry rfl
    cases hlike
    rw [Node.at?_concat hafter] at hentry'
    exact .link hafter (by rwa [h.allows]) hname hend hentry' (ih hdir)
  | @enter links here segment rest l mode' entries' n hhere hsearch hname hend hentry hn hnext ih =>
    obtain ⟨entries'', hafter⟩ := h.directory hhere
    -- Where the path goes on, and where it ends, stands a directory.
    obtain ⟨mode'', inner, hinner⟩ : ∃ mode'' inner,
        before.root.at? (here ++ [segment]) = some (.directory mode'' inner) := by
      cases rest with
      | nil =>
        cases hnext
        exact ⟨_, _, hdir⟩
      | cons next rest => exact hnext.directory
    obtain ⟨inner', hinner'⟩ := h.directory hinner
    rw [Node.at?_concat hafter] at hinner'
    exact .enter hafter (by rwa [h.allows]) hname hend hinner' (fun target => nofun) (ih hdir)

/-- A path to a directory leads there in the other tree too. -/
theorem resolve_directory (h : FilesDiffer before after changed) {path : Bytes} {mode : Mode}
    {entries : List (Path.Name × Node)} (hresolve : before.resolve .existing path = .ok l)
    (hdir : before.root.at? l = some (.directory mode entries)) :
    after.resolve .existing path = .ok l := by
  obtain ⟨hzero, hne, hlong, hleads⟩ := resolve_eq_ok.1 hresolve
  have hagain := h.leads hleads hdir
  rw [← h.cwd] at hagain
  exact resolve_eq_ok.2 ⟨hzero, hne, hlong, hagain⟩

end FilesDiffer

/-! ### Locations of names -/

theorem entryLocation?_eq_some {t : FileTree} {path : Bytes} {l : Location} :
    t.entryLocation? path = some l ↔ ∃ name above, Path.fileName path = some name ∧
      t.resolve .existing (if (Path.parent path).isEmpty then Path.dot else Path.parent path) =
        .ok above ∧ above ++ [name] = l := by
  simp only [entryLocation?, Option.bind_eq_bind, Option.bind_eq_some_iff, toOption_eq_some,
    Option.pure_def, Option.some.injEq, exists_and_left]

/-- Where something stands in one of the trees, a path has its last name in both or in neither. -/
theorem FilesDiffer.entryLocation? {before after : FileTree} {changed : Location → Prop}
    (h : FilesDiffer before after changed) {path : Bytes} {l : Location} {n : Node}
    (hat : before.root.at? l = some n) :
    after.entryLocation? path = some l ↔ before.entryLocation? path = some l := by
  rw [entryLocation?_eq_some, entryLocation?_eq_some]
  constructor
  · rintro ⟨name, above, hname, hresolve, rfl⟩
    obtain ⟨mode, entries, hdir, -⟩ := Node.directory_above hat
    obtain ⟨entries', hafter⟩ := h.directory hdir
    exact ⟨name, above, hname, h.symm.resolve_directory hresolve hafter, rfl⟩
  · rintro ⟨name, above, hname, hresolve, rfl⟩
    obtain ⟨mode, entries, hdir, -⟩ := Node.directory_above hat
    exact ⟨name, above, hname, h.resolve_directory hresolve hdir, rfl⟩

/-- A file that is written is the one difference. -/
theorem Rewritten.filesDiffer {before after : FileTree} {location : Location} {file : Node}
    (hw : Rewritten before after location file) (hfile : file.isFile) :
    FilesDiffer before after (· = location) where
  cwd := hw.cwd
  privileged := hw.privileged
  elsewhere := hw.elsewhere
  fileBefore l hl n hn := by
    rw [hl] at hn
    obtain ⟨content, modified, mode, rfl⟩ := hw.file_before hn
    rfl
  fileAfter l hl n hn := by
    rw [hl, hw.written] at hn
    rwa [← Option.some.inj hn]

end FileTree

end FileCensus
