import FileCensus.Proofs.TreeWrite

/-!
# Where paths lead

A path that leads somewhere leads there step by step, through directories that may be searched and
over links. After a file has been written every path that led to a node, or to the new file, leads to
the same place.
-/

namespace FileCensus.FileTree

/-- A segment that is looked up in a directory. -/
structure Enterable (segment : Bytes) : Prop where
  ne_nil : segment ≠ []
  ne_dot : segment ≠ Path.dot
  ne_dotDot : segment ≠ Path.dotDot
  short : segment.length ≤ nameLimit

/-- The segments lead from a location to another, over at most so many links. -/
inductive Leads (t : FileTree) (last : PathEnd) : Nat → Location → List Bytes → Location → Prop
  | done {links here} : Leads t last links here [] here
  | empty {links here rest l mode entries} (hdir : t.root.at? here = some (.directory mode entries))
      (h : Leads t last links here rest l) : Leads t last links here ([] :: rest) l
  | dot {links here rest l mode entries} (hdir : t.root.at? here = some (.directory mode entries))
      (hsearch : t.allows mode .search) (h : Leads t last links here rest l) :
      Leads t last links here (Path.dot :: rest) l
  | up {links here rest l mode entries} (hdir : t.root.at? here = some (.directory mode entries))
      (hsearch : t.allows mode .search) (h : Leads t last links here.dropLast rest l) :
      Leads t last links here (Path.dotDot :: rest) l
  | create {links here segment mode entries}
      (hdir : t.root.at? here = some (.directory mode entries)) (hsearch : t.allows mode .search)
      (hname : Enterable segment) (hnone : Node.findEntry segment entries = none)
      (hlast : last = .creatable) : Leads t last links here [segment] (here ++ [segment])
  | link {links here segment rest l mode entries target}
      (hdir : t.root.at? here = some (.directory mode entries)) (hsearch : t.allows mode .search)
      (hname : Enterable segment)
      (hend : ¬(last = .creatable ∧ rest ≠ [] ∧ rest.all (·.isEmpty)))
      (hentry : Node.findEntry segment entries = some (.link target))
      (h : Leads t last links (start here target).1 ((start here target).2 ++ rest) l) :
      Leads t last (links + 1) here (segment :: rest) l
  | enter {links here segment rest l mode entries n}
      (hdir : t.root.at? here = some (.directory mode entries)) (hsearch : t.allows mode .search)
      (hname : Enterable segment)
      (hend : ¬(last = .creatable ∧ rest ≠ [] ∧ rest.all (·.isEmpty)))
      (hentry : Node.findEntry segment entries = some n) (hn : ∀ target, n ≠ .link target)
      (h : Leads t last links (here ++ [segment]) rest l) :
      Leads t last links here (segment :: rest) l

theorem leads_of_follow {t : FileTree} {last : PathEnd} {links : Nat} {here l : Location}
    {segments : List Bytes} (h : t.follow last links here segments = .ok l) :
    Leads t last links here segments l := by
  fun_induction FileTree.follow t last links here segments with
  | case1 =>
    obtain rfl := Except.ok.inj h
    exact .done
  | case2 links here segment rest mode entries hdir hempty ih =>
    obtain rfl := List.isEmpty_iff.1 hempty
    exact .empty hdir (ih h)
  | case4 links here rest mode entries hdir hsearch hne ih =>
    exact .dot hdir (by simpa using hsearch) (ih h)
  | case5 links here rest mode entries hdir hsearch hne hdot ih =>
    exact .up hdir (by simpa using hsearch) (ih h)
  | case8 links here segment rest mode entries hdir hne hsearch hdot hup hend hshort hnone hlast =>
    obtain ⟨hlast, rfl⟩ := hlast
    obtain rfl := Except.ok.inj h
    have hname : Enterable segment :=
      ⟨fun he => hne (List.isEmpty_iff.2 he), hdot, hup, Nat.le_of_not_lt hshort⟩
    exact .create hdir (by simpa using hsearch) hname hnone hlast
  | case11 here segment rest mode entries hdir hne hsearch hdot hup hend hshort target hentry links
      next ih =>
    have hname : Enterable segment :=
      ⟨fun he => hne (List.isEmpty_iff.2 he), hdot, hup, Nat.le_of_not_lt hshort⟩
    exact .link hdir (by simpa using hsearch) hname hend hentry (ih h)
  | case12 links here segment rest mode entries hdir hne hsearch hdot hup hend hshort n hn hentry
      ih =>
    have hname : Enterable segment :=
      ⟨fun he => hne (List.isEmpty_iff.2 he), hdot, hup, Nat.le_of_not_lt hshort⟩
    exact .enter hdir (by simpa using hsearch) hname hend hentry hn (ih h)
  | case3 => simp at h
  | case6 => simp at h
  | case7 => simp at h
  | case9 => simp at h
  | case10 => simp at h
  | case13 => simp at h
  | case14 => simp at h

/-- A name in a directory that may be searched is looked up there. -/
theorem follow_name {t : FileTree} {last : PathEnd} {links : Nat} {here : Location} {segment : Bytes}
    {rest : List Bytes} {mode : Mode} {entries : List (Path.Name × Node)}
    (hdir : t.root.at? here = some (.directory mode entries)) (hsearch : t.allows mode .search)
    (hname : Enterable segment)
    (hend : ¬(last = .creatable ∧ rest ≠ [] ∧ rest.all (·.isEmpty))) :
    t.follow last links here (segment :: rest) =
      match Node.findEntry segment entries with
      | none => if last = .creatable ∧ rest = [] then .ok (here ++ [segment]) else .error .noEntry
      | some (.link target) =>
        match links with
        | 0 => .error .linkLoop
        | links + 1 => t.follow last links (start here target).1 ((start here target).2 ++ rest)
      | some _ => t.follow last links (here ++ [segment]) rest := by
  have hne : ¬segment.isEmpty := fun he => hname.ne_nil (List.isEmpty_iff.1 he)
  have hshort : ¬nameLimit < segment.length := Nat.not_lt.2 hname.short
  cases hentry : Node.findEntry segment entries with
  | none =>
    cases links <;>
      simp only [follow, hdir, hne, hsearch, hname.ne_dot, hname.ne_dotDot, hend, hshort, hentry,
        if_false, Bool.not_true, Bool.false_eq_true]
  | some n =>
    cases n <;> cases links <;>
      simp only [follow, hdir, hne, hsearch, hname.ne_dot, hname.ne_dotDot, hend, hshort, hentry,
        if_false, Bool.not_true, Bool.false_eq_true]

theorem Leads.follow {t : FileTree} {last : PathEnd} {links : Nat} {here l : Location}
    {segments : List Bytes} (h : Leads t last links here segments l) :
    t.follow last links here segments = .ok l := by
  induction h with
  | done => rw [FileTree.follow]
  | empty hdir h ih =>
    rw [FileTree.follow, hdir]
    exact ih
  | dot hdir hsearch h ih =>
    simp only [FileTree.follow, hdir, hsearch]
    exact ih
  | up hdir hsearch h ih =>
    simp only [FileTree.follow, hdir, hsearch]
    exact ih
  | create hdir hsearch hname hnone hlast =>
    rw [follow_name hdir hsearch hname (fun h => h.2.1 rfl), hnone]
    exact if_pos ⟨hlast, rfl⟩
  | link hdir hsearch hname hend hentry h ih =>
    rw [follow_name hdir hsearch hname hend, hentry]
    exact ih
  | @enter links here segment rest l mode entries n hdir hsearch hname hend hentry hn h ih =>
    rw [follow_name hdir hsearch hname hend, hentry]
    cases n with
    | link target => exact absurd rfl (hn target)
    | file content modified mode => exact ih
    | directory mode entries => exact ih

theorem follow_eq_ok {t : FileTree} {last : PathEnd} {links : Nat} {here l : Location}
    {segments : List Bytes} :
    t.follow last links here segments = .ok l ↔ Leads t last links here segments l :=
  ⟨leads_of_follow, Leads.follow⟩

/-- The way to the end of a path passes the end of each of its parts, which is there already. -/
theorem Leads.append {t : FileTree} {last : PathEnd} {links : Nat} {here l : Location}
    {segments front back : List Bytes} (h : Leads t last links here segments l)
    (hs : segments = front ++ back) (hback : back ≠ []) :
    ∃ links' middle, Leads t .existing links here front middle ∧
      Leads t last links' middle back l := by
  have hexisting : ∀ rest : List Bytes,
      ¬(PathEnd.existing = .creatable ∧ rest ≠ [] ∧ rest.all (·.isEmpty)) :=
    fun _ h => PathEnd.noConfusion h.1
  induction h generalizing front with
  | done =>
    obtain ⟨-, rfl⟩ := List.append_eq_nil_iff.1 hs.symm
    exact absurd rfl hback
  | @empty links here rest l mode entries hdir h ih =>
    cases front with
    | nil =>
      obtain rfl : _ = back := hs
      exact ⟨links, here, .done, .empty hdir h⟩
    | cons segment front =>
      obtain ⟨rfl, rfl⟩ := List.cons.inj hs
      obtain ⟨links', middle, hfront, hrest⟩ := ih rfl
      exact ⟨links', middle, .empty hdir hfront, hrest⟩
  | @dot links here rest l mode entries hdir hsearch h ih =>
    cases front with
    | nil =>
      obtain rfl : _ = back := hs
      exact ⟨links, here, .done, .dot hdir hsearch h⟩
    | cons segment front =>
      obtain ⟨rfl, rfl⟩ := List.cons.inj hs
      obtain ⟨links', middle, hfront, hrest⟩ := ih rfl
      exact ⟨links', middle, .dot hdir hsearch hfront, hrest⟩
  | @up links here rest l mode entries hdir hsearch h ih =>
    cases front with
    | nil =>
      obtain rfl : _ = back := hs
      exact ⟨links, here, .done, .up hdir hsearch h⟩
    | cons segment front =>
      obtain ⟨rfl, rfl⟩ := List.cons.inj hs
      obtain ⟨links', middle, hfront, hrest⟩ := ih rfl
      exact ⟨links', middle, .up hdir hsearch hfront, hrest⟩
  | @create links here segment mode entries hdir hsearch hname hnone hlast =>
    cases front with
    | nil =>
      obtain rfl : _ = back := hs
      exact ⟨links, here, .done, .create hdir hsearch hname hnone hlast⟩
    | cons other front =>
      obtain ⟨-, hrest⟩ := List.cons.inj hs
      exact absurd (List.append_eq_nil_iff.1 hrest.symm).2 hback
  | @link links here segment rest l mode entries target hdir hsearch hname hend hentry h ih =>
    cases front with
    | nil =>
      obtain rfl : _ = back := hs
      exact ⟨links + 1, here, .done, .link hdir hsearch hname hend hentry h⟩
    | cons other front =>
      obtain ⟨rfl, rfl⟩ := List.cons.inj hs
      obtain ⟨links', middle, hfront, hrest⟩ := ih (List.append_assoc ..).symm
      exact ⟨links', middle, .link hdir hsearch hname (hexisting _) hentry hfront, hrest⟩
  | @enter links here segment rest l mode entries n hdir hsearch hname hend hentry hn h ih =>
    cases front with
    | nil =>
      obtain rfl : _ = back := hs
      exact ⟨links, here, .done, .enter hdir hsearch hname hend hentry hn h⟩
    | cons other front =>
      obtain ⟨rfl, rfl⟩ := List.cons.inj hs
      obtain ⟨links', middle, hfront, hrest⟩ := ih rfl
      exact ⟨links', middle, .enter hdir hsearch hname (hexisting _) hentry hn hfront, hrest⟩

/-- What leads somewhere begins in a directory. -/
theorem Leads.directory {t : FileTree} {last : PathEnd} {links : Nat} {here l : Location}
    {segment : Bytes} {rest : List Bytes} (h : Leads t last links here (segment :: rest) l) :
    ∃ mode entries, t.root.at? here = some (.directory mode entries) := by
  cases h with
  | empty hdir => exact ⟨_, _, hdir⟩
  | dot hdir => exact ⟨_, _, hdir⟩
  | up hdir => exact ⟨_, _, hdir⟩
  | create hdir => exact ⟨_, _, hdir⟩
  | link hdir => exact ⟨_, _, hdir⟩
  | enter hdir => exact ⟨_, _, hdir⟩

/-! ### Paths after a write -/

theorem Rewritten.directory {before after : FileTree} {location l : Location} {file : Node}
    (h : Rewritten before after location file) {mode : Mode} {entries : List (Path.Name × Node)}
    (hdir : before.root.at? l = some (.directory mode entries)) :
    ∃ entries', after.root.at? l = some (.directory mode entries') := by
  have hne : l ≠ location := by
    rintro rfl
    obtain ⟨content, modified, mode', hfile⟩ := h.file_before hdir
    exact Node.noConfusion hfile
  obtain ⟨n, hafter, hlike⟩ := h.node_elsewhere hne hdir
  cases hlike
  exact ⟨_, hafter⟩

theorem Rewritten.allows {before after : FileTree} {location : Location} {file : Node}
    (h : Rewritten before after location file) (mode : Mode) (right : Right) :
    after.allows mode right = before.allows mode right := by
  rw [FileTree.allows, FileTree.allows, h.privileged]

/-- Entries of a directory that are not the written file are still there, with the same kind. -/
theorem Rewritten.entry {before after : FileTree} {location l : Location} {file n : Node}
    (h : Rewritten before after location file) {mode : Mode} {entries entries' : List (Path.Name × Node)}
    (hdir : before.root.at? l = some (.directory mode entries))
    (hafter : after.root.at? l = some (.directory mode entries')) {name : Path.Name}
    (hentry : Node.findEntry name entries = some n) (hne : l ++ [name] ≠ location) :
    ∃ n', Node.findEntry name entries' = some n' ∧ n.Like n' := by
  rw [← Node.at?_concat hdir name] at hentry
  obtain ⟨n', hn', hlike⟩ := h.node_elsewhere hne hentry
  rw [Node.at?_concat hafter] at hn'
  exact ⟨n', hn', hlike⟩

/-- What led to a node or to the place of the written file still leads there, and the file need not
be created any more. -/
theorem Leads.rewritten {before after : FileTree} {location : Location} {file : Node}
    (hw : Rewritten before after location file) (hfile : ∀ target, file ≠ .link target)
    {last : PathEnd} {links : Nat} {here l : Location} {segments : List Bytes}
    (h : Leads before last links here segments l)
    (hl : l = location ∨ (before.root.at? l).isSome) :
    Leads after .existing links here segments l := by
  have hend : ∀ rest : List Bytes,
      ¬(PathEnd.existing = .creatable ∧ rest ≠ [] ∧ rest.all (·.isEmpty)) :=
    fun _ h => PathEnd.noConfusion h.1
  have hwritten : ∀ {l name mode entries}, after.root.at? l = some (.directory mode entries) →
      l ++ [name] = location → Node.findEntry name entries = some file := by
    intro l name mode entries hdir he
    have hat := hw.written
    rwa [← he, Node.at?_concat hdir] at hat
  induction h with
  | done => exact .done
  | empty hdir h ih =>
    obtain ⟨entries', hafter⟩ := hw.directory hdir
    exact .empty hafter (ih hl)
  | dot hdir hsearch h ih =>
    obtain ⟨entries', hafter⟩ := hw.directory hdir
    exact .dot hafter (by rwa [hw.allows]) (ih hl)
  | up hdir hsearch h ih =>
    obtain ⟨entries', hafter⟩ := hw.directory hdir
    exact .up hafter (by rwa [hw.allows]) (ih hl)
  | @create links here segment mode entries hdir hsearch hname hnone hlast =>
    obtain ⟨entries', hafter⟩ := hw.directory hdir
    have he : here ++ [segment] = location := by
      rcases hl with he | hsome
      · exact he
      · rw [Node.at?_concat hdir, hnone] at hsome
        simp at hsome
    exact .enter hafter (by rwa [hw.allows]) hname (hend _) (hwritten hafter he) hfile .done
  | @link links here segment rest l mode entries target hdir hsearch hname _ hentry h ih =>
    obtain ⟨entries', hafter⟩ := hw.directory hdir
    have hne : here ++ [segment] ≠ location := by
      intro he
      have hat := Node.at?_concat hdir segment
      rw [he, hentry] at hat
      obtain ⟨content, modified, mode', hold⟩ := hw.file_before hat
      exact Node.noConfusion hold
    obtain ⟨n', hentry', hlike⟩ := hw.entry hdir hafter hentry hne
    cases hlike
    exact .link hafter (by rwa [hw.allows]) hname (hend _) hentry' (ih hl)
  | @enter links here segment rest l mode entries n hdir hsearch hname _ hentry hn h ih =>
    obtain ⟨entries', hafter⟩ := hw.directory hdir
    have hsearch' : after.allows mode .search := by rwa [hw.allows]
    by_cases he : here ++ [segment] = location
    · exact .enter hafter hsearch' hname (hend _) (hwritten hafter he) hfile (ih hl)
    · obtain ⟨n', hentry', hlike⟩ := hw.entry hdir hafter hentry he
      exact .enter hafter hsearch' hname (hend _) hentry' (hlike.ne_link hn) (ih hl)

theorem start_ne_nil (here : Location) (path : Bytes) : (start here path).2 ≠ [] := by
  rw [start]
  split
  · rename_i h
    exact absurd h (cutAt_ne_nil _ _)
  · rename_i first rest h
    split
    · rename_i hrest
      cases rest with
      | nil => simp at hrest
      | cons second rest => exact List.cons_ne_nil _ _
    · exact List.cons_ne_nil _ _

theorem resolve_eq_ok {t : FileTree} {last : PathEnd} {path : Bytes} {l : Location} :
    t.resolve last path = .ok l ↔
      path.contains 0 = false ∧ path ≠ [] ∧ path.length ≤ pathLimit ∧
        Leads t last linkLimit (start t.cwd path).1 (start t.cwd path).2 l := by
  rw [resolve, ← follow_eq_ok]
  by_cases hzero : path.contains 0 = true
  · rw [if_pos hzero, hzero]
    exact ⟨fun h => by simp at h, fun h => Bool.noConfusion h.1⟩
  · rw [if_neg hzero]
    by_cases hempty : path.isEmpty = true
    · rw [if_pos hempty]
      exact ⟨fun h => by simp at h, fun h => absurd (List.isEmpty_iff.1 hempty) h.2.1⟩
    · rw [if_neg hempty]
      by_cases hlong : pathLimit < path.length
      · rw [if_pos hlong]
        exact ⟨fun h => by simp at h, fun h => absurd h.2.2.1 (Nat.not_le.2 hlong)⟩
      · rw [if_neg hlong]
        have hpath : path.contains 0 = false ∧ path ≠ [] ∧ path.length ≤ pathLimit :=
          ⟨Bool.eq_false_iff.2 hzero, fun he => hempty (List.isEmpty_iff.2 he), Nat.not_lt.1 hlong⟩
        rw [mapError_eq_ok]
        constructor
        · intro h
          exact ⟨hpath.1, hpath.2.1, hpath.2.2, h⟩
        · intro h
          exact h.2.2.2

/-- A path can lead somewhere only if the root is a directory. -/
theorem directory_of_leads {t : FileTree} {last : PathEnd} {links : Nat} {here l : Location}
    {segments : List Bytes} (h : Leads t last links here segments l) (hs : segments ≠ []) :
    ∃ mode entries, t.root = .directory mode entries := by
  obtain ⟨segment, rest, rfl⟩ := List.exists_cons_of_ne_nil hs
  obtain ⟨mode, entries, hat⟩ := h.directory
  cases here with
  | nil => exact ⟨mode, entries, Option.some.inj hat⟩
  | cons name here =>
    obtain ⟨mode', entries', -, hroot, -⟩ := Node.directory_of_at?_cons hat
    exact ⟨mode', entries', hroot⟩

/-- A place that may be written has a directory above it, and a file at most. -/
theorem place_of_writableMode {t : FileTree} {location : Location} {mode mode' : Mode}
    {entries : List (Path.Name × Node)} (hroot : t.root = .directory mode' entries)
    (h : t.writableMode location = .ok mode) :
    (∃ above name mode entries, location = above ++ [name] ∧
      t.root.at? above = some (.directory mode entries)) ∧
    (t.root.at? location = none ∨
      ∃ content modified mode, t.root.at? location = some (.file content modified mode)) := by
  rcases writableMode_eq_ok h with ⟨content, modified, hat⟩ | ⟨hat, -, mode'', entries', habove⟩
  · refine ⟨?_, .inr ⟨content, modified, mode, hat⟩⟩
    rcases List.eq_nil_or_concat location with rfl | ⟨above, name, hlast⟩
    · rw [Node.at?_nil, hroot] at hat
      simp at hat
    · rw [List.concat_eq_append] at hlast
      rw [hlast] at hat
      obtain ⟨mode'', entries', habove, -⟩ := Node.directory_above hat
      exact ⟨above, name, mode'', entries', hlast, habove⟩
  · refine ⟨?_, .inl hat⟩
    rcases List.eq_nil_or_concat location with rfl | ⟨above, name, hlast⟩
    · simp at hat
    · rw [List.concat_eq_append] at hlast
      rw [hlast, List.dropLast_concat] at habove
      exact ⟨above, name, mode'', entries', hlast, habove⟩

/-- A successful write leaves a tree in which one file is rewritten. -/
theorem rewritten_of_write {t after : FileTree} {path content : Bytes} {now : Int}
    (h : t.write path content now = .ok after) :
    ∃ location mode, t.resolve .creatable path = .ok location ∧
      t.writableMode location = .ok mode ∧
      Rewritten t after location (.file content now mode) := by
  rw [write] at h
  split at h
  · simp at h
  · rename_i location hresolve
    split at h
    · simp at h
    · rename_i mode hmode
      obtain rfl := Except.ok.inj h
      refine ⟨location, mode, hresolve, hmode, ?_⟩
      obtain ⟨-, -, -, hleads⟩ := resolve_eq_ok.1 hresolve
      obtain ⟨mode', entries, hroot⟩ := directory_of_leads hleads (start_ne_nil _ _)
      obtain ⟨⟨above, name, mode'', entries', hlast, habove⟩, hreplaced⟩ :=
        place_of_writableMode hroot hmode
      refine ⟨rfl, rfl, fun l hl => Node.at?_put rfl ?_ hl, hreplaced, ?_⟩
      · intro old hold
        rcases hreplaced with hnone | ⟨content', modified, mode'', hfile⟩
        · rw [hnone] at hold
          simp at hold
        · rw [hfile] at hold
          obtain rfl := Option.some.inj hold
          rfl
      · rw [hlast]
        exact Node.at?_put_self habove

end FileCensus.FileTree
