import FileCensus.Proofs.ChangedFiles
import FileCensus.Scan.Walk

/-!
# What a walk finds

A walk finds what stands at the locations that it reaches. It reaches a location name by name, through
directories whose names can be listed, if its filter keeps each of the names. In two trees that differ
in files only, a walk finds the same but for these files.
-/

namespace FileCensus

theorem Node.sizeOf_lt_of_mem {n child : Node} {name : Path.Name} (h : (name, child) ∈ n.entries) :
    sizeOf child < sizeOf n := by
  cases n with
  | file content modified mode => exact absurd h List.not_mem_nil
  | link target => exact absurd h List.not_mem_nil
  | directory mode entries =>
    have hentry := List.sizeOf_lt_of_mem h
    have hpair : sizeOf (name, child) = 1 + sizeOf name + sizeOf child := rfl
    have hnode := Node.directory.sizeOf_spec mode entries
    rw [Node.entries] at hentry
    omega

/-- What holds of a node whenever it holds of those in it holds of all nodes. -/
theorem Node.induct_entries {P : Node → Prop}
    (h : ∀ n, (∀ name child, (name, child) ∈ n.entries → P child) → P n) (n : Node) : P n :=
  h n fun _ child hmem =>
    have := sizeOf_lt_of_mem hmem
    induct_entries h child
termination_by n

/-- Whether a filter keeps an entry of a directory of the walk. -/
def WalkFilter.passes (filter : WalkFilter) (here : Location) (name : Path.Name)
    (isDirectory : Bool) : Bool :=
  filter.keeps (filter.survey here) name isDirectory

namespace FileTree

/-- Whether a walk that began at `root` comes from `here` to the location below it, and whether the
last directory on the way can then be searched. -/
def reach (t : FileTree) (filter : WalkFilter) (root : Location) :
    Bool → Location → Location → Option Bool
  | reachable, _, [] => some reachable
  | reachable, here, name :: rest =>
    match t.root.at? (root ++ here) with
    | some (.directory mode entries) =>
      if reachable && t.canList mode
          && filter.passes here name ((Node.findEntry name entries).any Node.isDirectory) then
        reach t filter root (t.allows mode .search) (here ++ [name]) rest
      else none
    | _ => none

/-- What a walk finds at a location to which it comes. -/
def foundAt (t : FileTree) (reachable : Bool) (l : Location) : Node → Option Found
  | .file .. => some (.file l)
  | .link _ => none
  | .directory mode _ => if reachable && t.canList mode then none else some (.unlisted l)

variable {t : FileTree} {filter : WalkFilter} {root here : Location} {reachable : Bool}

theorem foundAt_eq_file {l l' : Location} {n : Node} :
    t.foundAt reachable l n = some (.file l') ↔
      l = l' ∧ ∃ content modified mode, n = .file content modified mode := by
  cases n with
  | file content modified mode => simp [foundAt]
  | link target => simp [foundAt]
  | directory mode entries =>
    rw [foundAt]
    split <;> simp

theorem mem_walkEntries {entries : List (Path.Name × Node)} {f : Found} :
    f ∈ t.walkEntries filter reachable here (filter.survey here) entries ↔
      ∃ name child, (name, child) ∈ entries ∧ filter.passes here name child.isDirectory ∧
        f ∈ t.walk filter reachable (here ++ [name]) child := by
  induction entries with
  | nil => simp [walkEntries]
  | cons e entries ih =>
    obtain ⟨name, node⟩ := e
    rw [walkEntries, List.mem_append, ih]
    constructor
    · rintro (h | ⟨other, child, hmem, hkeep, h⟩)
      · split at h
        · rename_i hkeep
          exact ⟨name, node, List.mem_cons_self, hkeep, h⟩
        · exact absurd h List.not_mem_nil
      · exact ⟨other, child, List.mem_cons_of_mem _ hmem, hkeep, h⟩
    · rintro ⟨other, child, hmem, hkeep, h⟩
      rcases List.mem_cons.1 hmem with he | hmem
      · obtain ⟨rfl, rfl⟩ := Prod.mk.inj he
        rw [WalkFilter.passes] at hkeep
        rw [if_pos hkeep]
        exact .inl h
      · exact .inr ⟨other, child, hmem, hkeep, h⟩

theorem reach_of_directory {mode : Mode} {entries : List (Path.Name × Node)}
    (h : t.root.at? (root ++ here) = some (.directory mode entries)) (name : Path.Name)
    (rest : Location) :
    t.reach filter root reachable here (name :: rest) =
      if reachable && t.canList mode
          && filter.passes here name ((Node.findEntry name entries).any Node.isDirectory) then
        t.reach filter root (t.allows mode .search) (here ++ [name]) rest
      else none := by
  rw [reach, h]

theorem reach_of_not_directory
    (h : (t.root.at? (root ++ here)).any Node.isDirectory = false) (name : Path.Name)
    (rest : Location) : t.reach filter root reachable here (name :: rest) = none := by
  rw [reach]
  cases hat : t.root.at? (root ++ here) with
  | none => rfl
  | some n =>
    rw [hat, Option.any_some] at h
    cases n with
    | file content modified mode => rfl
    | link target => rfl
    | directory mode entries => exact Bool.noConfusion h

/-- Something is found at or below a node by a walk that comes to `here`, where the node stands. -/
def Finds (t : FileTree) (filter : WalkFilter) (root : Location) (reachable : Bool) (here : Location)
    (n : Node) (f : Found) : Prop :=
  ∃ rest reachable' m, t.reach filter root reachable here rest = some reachable' ∧
    n.at? rest = some m ∧ t.foundAt reachable' (here ++ rest) m = some f

variable {n : Node} {f : Found}

theorem Finds.self (h : t.foundAt reachable here n = some f) :
    t.Finds filter root reachable here n f :=
  ⟨[], reachable, n, rfl, rfl, by rwa [List.append_nil]⟩

theorem finds_of_bare (hn : n.entries = []) :
    t.Finds filter root reachable here n f ↔ t.foundAt reachable here n = some f := by
  refine ⟨?_, .self⟩
  rintro ⟨rest, reachable', m, hreach, hm, h⟩
  cases rest with
  | nil =>
    cases hreach
    cases hm
    rwa [List.append_nil] at h
  | cons name rest =>
    rw [Node.at?_cons_of_bare hn] at hm
    simp at hm

theorem finds_unlisted {mode : Mode} {entries : List (Path.Name × Node)}
    (hn : t.root.at? (root ++ here) = some (.directory mode entries))
    (hlist : ¬(reachable && t.canList mode) = true) :
    t.Finds filter root reachable here (.directory mode entries) f ↔ .unlisted here = f := by
  have hfound : t.foundAt reachable here (.directory mode entries) = some (.unlisted here) :=
    if_neg hlist
  constructor
  · rintro ⟨rest, reachable', m, hreach, hm, h⟩
    cases rest with
    | nil =>
      cases hreach
      cases hm
      rw [List.append_nil, hfound] at h
      exact Option.some.inj h
    | cons name rest =>
      rw [reach_of_directory hn, Bool.eq_false_iff.2 hlist] at hreach
      simp at hreach
  · rintro rfl
    exact .self hfound

theorem finds_listed {mode : Mode} {entries : List (Path.Name × Node)}
    (hn : t.root.at? (root ++ here) = some (.directory mode entries))
    (hlist : (reachable && t.canList mode) = true) :
    t.Finds filter root reachable here (.directory mode entries) f ↔
      ∃ name child, Node.findEntry name entries = some child ∧
        filter.passes here name child.isDirectory ∧
        t.Finds filter root (t.allows mode .search) (here ++ [name]) child f := by
  constructor
  · rintro ⟨rest, reachable', m, hreach, hm, h⟩
    cases rest with
    | nil =>
      cases hreach
      cases hm
      rw [foundAt, if_pos hlist] at h
      simp at h
    | cons name rest =>
      rw [Node.at?_cons, Node.entries] at hm
      obtain ⟨child, hentry, hm⟩ := Option.bind_eq_some_iff.1 hm
      rw [reach_of_directory hn, hentry, Option.any_some, hlist, Bool.true_and] at hreach
      split at hreach
      · rename_i hkeep
        rw [List.append_cons] at h
        exact ⟨name, child, hentry, hkeep, rest, reachable', m, hreach, hm, h⟩
      · simp at hreach
  · rintro ⟨name, child, hentry, hkeep, rest, reachable', m, hreach, hm, h⟩
    refine ⟨name :: rest, reachable', m, ?_, ?_, ?_⟩
    · rw [reach_of_directory hn, hentry, Option.any_some, hlist, hkeep]
      exact hreach
    · rw [Node.at?_cons, Node.entries, hentry]
      exact hm
    · rw [List.append_cons]
      exact h

/-- A walk finds what stands where it comes to, and nothing else. -/
theorem mem_walk (hn : t.root.at? (root ++ here) = some n) (hd : n.Distinct) :
    f ∈ t.walk filter reachable here n ↔ t.Finds filter root reachable here n f := by
  induction n using Node.induct_entries generalizing reachable here with
  | h n ih =>
    cases n with
    | file content modified mode =>
      rw [walk, List.mem_singleton, finds_of_bare rfl, foundAt, Option.some.injEq, eq_comm]
    | link target =>
      rw [walk, finds_of_bare rfl, foundAt]
      simp
    | directory mode entries =>
      rw [walk]
      by_cases hlist : (reachable && t.canList mode) = true
      · rw [if_pos hlist, mem_walkEntries, finds_listed hn hlist]
        have hnames := hd [] mode entries rfl
        have hchild : ∀ {name child}, Node.findEntry name entries = some child →
            (f ∈ t.walk filter (t.allows mode .search) (here ++ [name]) child ↔
              t.Finds filter root (t.allows mode .search) (here ++ [name]) child f) := by
          intro name child hentry
          refine ih name child ((Node.findEntry_eq_some hnames).1 hentry) ?_ (hd.child hentry)
          rw [← List.append_assoc, Node.at?_concat hn, hentry]
        constructor
        · rintro ⟨name, child, hmem, hkeep, h⟩
          have hentry := (Node.findEntry_eq_some hnames).2 hmem
          exact ⟨name, child, hentry, hkeep, (hchild hentry).1 h⟩
        · rintro ⟨name, child, hentry, hkeep, h⟩
          exact ⟨name, child, (Node.findEntry_eq_some hnames).1 hentry, hkeep, (hchild hentry).2 h⟩
      · rw [if_neg hlist, List.mem_singleton, finds_unlisted hn hlist, eq_comm]

/-! ### Walks of trees that differ in files -/

variable {before after : FileTree} {filter' : WalkFilter} {changed : Location → Prop}

theorem FilesDiffer.canList (h : FilesDiffer before after changed) (mode : Mode) :
    after.canList mode = before.canList mode :=
  h.allows mode .read

/-- A walk comes to the same locations if its filter keeps the same names. -/
theorem FilesDiffer.reach (h : FilesDiffer before after changed)
    (hfilter : ∀ here name isDirectory,
      filter'.passes here name isDirectory = filter.passes here name isDirectory)
    (rest : Location) :
    after.reach filter' root reachable here rest = before.reach filter root reachable here rest := by
  induction rest generalizing reachable here with
  | nil => rfl
  | cons name rest ih =>
    have hdirectory := h.any_isDirectory (root ++ here)
    by_cases hdir : ∃ mode entries, before.root.at? (root ++ here) = some (.directory mode entries)
    · obtain ⟨mode, entries, hdir⟩ := hdir
      obtain ⟨entries', hafter⟩ := h.directory hdir
      have hentry := h.any_isDirectory (root ++ here ++ [name])
      rw [Node.at?_concat hdir, Node.at?_concat hafter] at hentry
      rw [reach_of_directory hdir, reach_of_directory hafter, hentry, h.canList, h.allows, hfilter,
        ih]
    · have hbefore : (before.root.at? (root ++ here)).any Node.isDirectory = false := by
        cases hat : before.root.at? (root ++ here) with
        | none => rfl
        | some n =>
          cases n with
          | file content modified mode => rfl
          | link target => rfl
          | directory mode entries => exact absurd ⟨mode, entries, hat⟩ hdir
      rw [reach_of_not_directory hbefore, reach_of_not_directory (hdirectory.trans hbefore)]

theorem FilesDiffer.foundAt (h : FilesDiffer before after changed) {f : Found}
    (hf : ∀ l, f = .file l → ¬changed (root ++ l)) (l : Location) :
    (after.root.at? (root ++ l)).bind (after.foundAt reachable l) = some f ↔
      (before.root.at? (root ++ l)).bind (before.foundAt reachable l) = some f := by
  by_cases hc : changed (root ++ l)
  · have hfile : ∀ (t : FileTree) {n : Option Node}, (∀ m, n = some m → m.isFile) →
        n.bind (t.foundAt reachable l) ≠ some f := by
      intro t n hn hfound
      obtain ⟨m, hm, hfound⟩ := Option.bind_eq_some_iff.1 hfound
      obtain ⟨content, modified, mode, rfl⟩ := Node.exists_file (hn m hm)
      exact hf l (Option.some.inj hfound).symm hc
    exact ⟨fun hfound => absurd hfound (hfile after (h.fileAfter _ hc)),
      fun hfound => absurd hfound (hfile before (h.fileBefore _ hc))⟩
  · cases hbefore : before.root.at? (root ++ l) with
    | none => rw [h.at?_eq_none hc hbefore, Option.bind_none, Option.bind_none]
    | some n =>
      obtain ⟨n', hafter, hlike⟩ := h.exists_like hc hbefore
      rw [hafter]
      cases hlike with
      | file content modified mode => rfl
      | link target => rfl
      | directory mode entries entries' =>
        simp only [Option.bind_some, FileTree.foundAt, h.canList]

/-- What a walk from a location finds, by what stands in the tree. -/
theorem finds_iff (hn : t.root.at? root = some n) :
    t.Finds filter root reachable [] n f ↔
      ∃ l reachable', t.reach filter root reachable [] l = some reachable' ∧
        (t.root.at? (root ++ l)).bind (t.foundAt reachable' l) = some f := by
  have hat : ∀ l, t.root.at? (root ++ l) = n.at? l := fun l => by
    rw [Node.at?_append, hn, Option.bind_some]
  constructor
  · rintro ⟨l, reachable', m, hreach, hm, h⟩
    exact ⟨l, reachable', hreach, by rw [hat, hm]; exact h⟩
  · rintro ⟨l, reachable', hreach, h⟩
    obtain ⟨m, hm, h⟩ := Option.bind_eq_some_iff.1 h
    exact ⟨l, reachable', m, hreach, by rwa [← hat], h⟩

/-- A walk finds the same in both trees, but for the files that were changed. -/
theorem FilesDiffer.finds (h : FilesDiffer before after changed)
    (hfilter : ∀ here name isDirectory,
      filter'.passes here name isDirectory = filter.passes here name isDirectory)
    {n n' : Node} (hn : before.root.at? root = some n) (hn' : after.root.at? root = some n')
    {f : Found} (hf : ∀ l, f = .file l → ¬changed (root ++ l)) :
    after.Finds filter' root reachable [] n' f ↔ before.Finds filter root reachable [] n f := by
  rw [finds_iff hn, finds_iff hn']
  simp only [h.reach hfilter, h.foundAt hf]

end FileTree

end FileCensus
