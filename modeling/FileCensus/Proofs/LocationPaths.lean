import FileCensus.Capture
import FileCensus.Proofs.Resolution

/-!
# Paths of locations

The absolute path of a file names exactly that file if every directory around it may be searched. What
is read of a file does not change when another file is written.
-/

namespace FileCensus

/-- A name that an entry of a directory can have. -/
structure Path.IsName (n : Path.Name) : Prop where
  ne_nil : n ≠ []
  ne_dot : n ≠ Path.dot
  ne_dotDot : n ≠ Path.dotDot
  slash_not_mem : Path.slash ∉ n

instance (n : Path.Name) : Decidable (Path.IsName n) :=
  decidable_of_iff (n ≠ [] ∧ n ≠ Path.dot ∧ n ≠ Path.dotDot ∧ Path.slash ∉ n)
    ⟨fun h => ⟨h.1, h.2.1, h.2.2.1, h.2.2.2⟩, fun h => ⟨h.1, h.2, h.3, h.4⟩⟩

/-- Every entry of a directory has a name that can be one, and no two have the same. -/
structure FileTree.Sound (t : FileTree) : Prop where
  names : ∀ l mode entries, t.root.at? l = some (.directory mode entries) →
    ∀ name n, Node.findEntry name entries = some n → Path.IsName name
  distinct : t.root.Distinct

theorem FileTree.sound_of_directories {t : FileTree}
    (h : ∀ l mode entries, t.root.at? l = some (.directory mode entries) →
      (∀ e ∈ entries, Path.IsName e.1) ∧ (entries.map (·.1)).Nodup) : t.Sound :=
  ⟨fun l mode entries hat _ _ hentry => (h l mode entries hat).1 _ (Node.mem_of_findEntry hentry),
    fun l mode entries hat => (h l mode entries hat).2⟩

/-! ### Joining and cutting -/

theorem Path.join_cons_cons (a b : Bytes) (names : List Bytes) :
    Path.join (a :: b :: names) = a ++ Path.slash :: Path.join (b :: names) := by
  simp [Path.join]

/-- Segments without a separator are cut out of a path as they were joined. -/
theorem Path.cutAt_join {segments : List Bytes} (hs : segments ≠ [])
    (h : ∀ s ∈ segments, Path.slash ∉ s) : cutAt Path.slash (Path.join segments) = segments := by
  induction segments with
  | nil => exact absurd rfl hs
  | cons a segments ih =>
    have ha : Path.slash ∉ a := h a List.mem_cons_self
    cases segments with
    | nil =>
      have hjoin : Path.join [a] = a := by simp [Path.join]
      rw [hjoin, cutAt_of_not_mem ha]
    | cons b segments =>
      rw [Path.join_cons_cons, cutAt_append ha,
        ih (List.cons_ne_nil _ _) fun s hmem => h s (List.mem_cons_of_mem _ hmem)]

namespace FileTree

theorem start_path {l : Location} (hne : l ≠ []) (h : ∀ name ∈ l, Path.slash ∉ name)
    (here : Location) : start here l.path = ([], l) := by
  have hcut : cutAt Path.slash l.path = [] :: l := by
    rw [Location.path, cutAt, if_pos rfl, Path.cutAt_join hne h]
  rw [start, hcut]
  cases l with
  | nil => exact absurd rfl hne
  | cons name l => rfl

/-! ### Following names -/

theorem follow_existing_name {t : FileTree} {links : Nat} {here : Location} {name : Path.Name}
    {rest : List Bytes} {mode : Mode} {entries : List (Path.Name × Node)} {n : Node}
    (hdir : t.root.at? here = some (.directory mode entries)) (hname : Path.IsName name)
    (hentry : Node.findEntry name entries = some n) (hn : ∀ target, n ≠ .link target) :
    t.follow .existing links here (name :: rest) =
      if !t.allows mode .search then .error .denied
      else if nameLimit < name.length then .error .nameTooLong
      else t.follow .existing links (here ++ [name]) rest := by
  have hne : ¬name.isEmpty := fun he => hname.ne_nil (List.isEmpty_iff.1 he)
  by_cases hsearch : t.allows mode .search
  · by_cases hlong : nameLimit < name.length
    · simp only [follow, hdir, hne, hsearch, hname.ne_dot, hname.ne_dotDot, hlong, reduceCtorEq,
        false_and, if_false, if_true, Bool.not_true, Bool.false_eq_true]
    · have henterable : Enterable name :=
        ⟨hname.ne_nil, hname.ne_dot, hname.ne_dotDot, Nat.not_lt.1 hlong⟩
      rw [follow_name hdir hsearch henterable (fun h => PathEnd.noConfusion h.1), hentry, hsearch,
        if_neg hlong]
      cases n with
      | link target => exact absurd rfl (hn target)
      | file content modified mode => rfl
      | directory mode entries => rfl
  · simp only [follow, hdir, hne, hsearch, Bool.false_eq_true, if_false, if_true, Bool.not_false]

/-- The name of an entry of the working directory is a path to it. -/
theorem node_of_entry {t : FileTree} {name : Path.Name} {mode : Mode}
    {entries : List (Path.Name × Node)} {n : Node}
    (hdir : t.root.at? t.cwd = some (.directory mode entries)) (hsearch : t.allows mode .search)
    (hname : Path.IsName name) (hzero : name.contains 0 = false) (hshort : name.length ≤ nameLimit)
    (hentry : Node.findEntry name entries = some n) (hn : ∀ target, n ≠ .link target) :
    t.node name = .ok n := by
  have hstart : start t.cwd name = (t.cwd, [name]) := by
    rw [start, cutAt_of_not_mem hname.slash_not_mem]
    simp
  have henterable : Enterable name := ⟨hname.ne_nil, hname.ne_dot, hname.ne_dotDot, hshort⟩
  have hresolve : t.resolve .existing name = .ok (t.cwd ++ [name]) := by
    refine resolve_eq_ok.2 ⟨hzero, hname.ne_nil, Nat.le_trans hshort (by decide), ?_⟩
    rw [hstart]
    exact .enter hdir hsearch henterable (fun h => PathEnd.noConfusion h.1) hentry hn .done
  rw [node, hresolve]
  simp only [Node.at?_concat hdir, hentry]

variable {before after : FileTree} {location : Location} {file : Node}

/-- The names on the way to a file that was not written lead to it, or are refused, as before. -/
theorem follow_names (hw : Rewritten before after location file) (hs : before.Sound) (links : Nat)
    (here : Location) {rest : Location} {content : Bytes} {modified : Int} {mode : Mode}
    (hat : before.root.at? (here ++ rest) = some (.file content modified mode))
    (hne : here ++ rest ≠ location) :
    after.follow .existing links here rest = before.follow .existing links here rest ∧
      ∀ l, before.follow .existing links here rest = .ok l → l = here ++ rest := by
  induction rest generalizing here with
  | nil =>
    rw [follow, follow, List.append_nil]
    exact ⟨rfl, fun l hl => (Except.ok.inj hl).symm⟩
  | cons name rest ih =>
    have hsplit : here ++ name :: rest = here ++ [name] ++ rest := by simp
    have hbelow := hat
    rw [Node.at?_append] at hbelow
    obtain ⟨above, habove, hbelow⟩ := Option.bind_eq_some_iff.1 hbelow
    obtain ⟨mode', entries, n, rfl, hentry, hrest⟩ := Node.directory_of_at?_cons hbelow
    obtain ⟨entries', hafter⟩ := hw.directory habove
    have hname := hs.names _ _ _ habove _ _ hentry
    have hn : ∀ target, n ≠ .link target := by
      rintro target rfl
      cases rest with
      | nil => simp at hrest
      | cons next rest =>
        rw [Node.at?_cons_of_bare rfl] at hrest
        simp at hrest
    have hnext : here ++ [name] ≠ location := by
      intro he
      have hold := Node.at?_concat habove name
      rw [he, hentry] at hold
      obtain ⟨content', modified', mode'', rfl⟩ := hw.file_before hold
      cases rest with
      | nil => exact hne he
      | cons next rest =>
        rw [Node.at?_cons_of_bare rfl] at hrest
        simp at hrest
    obtain ⟨n', hentry', hlike⟩ := hw.entry habove hafter hentry hnext
    have hn' := hlike.ne_link hn
    rw [hsplit] at hat hne ⊢
    obtain ⟨hsame, hends⟩ := ih (here ++ [name]) hat hne
    rw [follow_existing_name habove hname hentry hn, follow_existing_name hafter hname hentry' hn',
      hw.allows, hsame]
    refine ⟨rfl, ?_⟩
    intro l hl
    split at hl
    · simp at hl
    · split at hl
      · simp at hl
      · exact hends l hl

theorem Sound.isName {t : FileTree} (hs : t.Sound) {l : Location} {n : Node}
    (hat : t.root.at? l = some n) : ∀ name ∈ l, Path.IsName name := by
  intro name hmem
  obtain ⟨front, back, rfl⟩ := List.append_of_mem hmem
  rw [Node.at?_append] at hat
  obtain ⟨above, habove, hbelow⟩ := Option.bind_eq_some_iff.1 hat
  obtain ⟨mode, entries, child, rfl, hentry, -⟩ := Node.directory_of_at?_cons hbelow
  exact hs.names _ _ _ habove _ _ hentry

theorem Sound.slash_not_mem {t : FileTree} (hs : t.Sound) {l : Location} {n : Node}
    (hat : t.root.at? l = some n) : ∀ name ∈ l, Path.slash ∉ name :=
  fun name hmem => (hs.isName hat name hmem).slash_not_mem

/-- The path of a file that was not written names the same file as before, or is refused as before. -/
theorem node_path (hw : Rewritten before after location file) (hs : before.Sound) {l : Location}
    {content : Bytes} {modified : Int} {mode : Mode}
    (hat : before.root.at? l = some (.file content modified mode)) (hne : l ≠ location) :
    after.node l.path = before.node l.path := by
  obtain ⟨n, hafter, hlike⟩ := hw.node_elsewhere hne hat
  cases hlike
  have hroot : l ≠ [] := by
    rintro rfl
    obtain ⟨name, rest, rfl⟩ := List.exists_cons_of_ne_nil hne.symm
    have hwritten := hw.written
    rw [Option.some.inj hafter, Node.at?_cons_of_bare rfl] at hwritten
    simp at hwritten
  have hstart := start_path hroot (hs.slash_not_mem hat)
  obtain ⟨hsame, hends⟩ := follow_names hw hs linkLimit [] hat hne
  have hresolve : after.resolve .existing l.path = before.resolve .existing l.path := by
    simp only [resolve, hstart, hsame]
  rw [node, node, hresolve]
  cases hfound : before.resolve .existing l.path with
  | error fault => rfl
  | ok found =>
    obtain ⟨-, -, -, hleads⟩ := resolve_eq_ok.1 hfound
    rw [hstart] at hleads
    have hl : l = found := (hends found hleads.follow).symm
    subst hl
    simp only [hat, hafter]

/-- What is read of a file that was not written is what was read before. -/
theorem reads_path (hw : Rewritten before after location file) (hs : before.Sound) {l : Location}
    {content : Bytes} {modified : Int} {mode : Mode}
    (hat : before.root.at? l = some (.file content modified mode)) (hne : l ≠ location) :
    after.reads l.path = before.reads l.path := by
  have hnode := node_path hw hs hat hne
  have hopen : ∀ n, after.openNode n = before.openNode n := by
    intro n
    cases n <;> simp only [openNode, hw.allows]
  simp only [reads, stat, openPath, hnode, hopen]

end FileTree

end FileCensus
