import FileCensus.Proofs.CaptureOutcome
import FileCensus.Proofs.ExactReports
import FileCensus.Scan

/-!
# What a scan records

Under each path a scan records what it captured of the last file of that path. A scan gives a snapshot
unless it ends at a failure, and then its settings say so.
-/

namespace FileCensus

/-! ### Looking up what was inserted -/

theorem Record.find_cons (path : String) (x : Record) (files : List Record) :
    find path (x :: files) = if x.path.text = path then some x else find path files := by
  rw [find, List.find?_cons]
  by_cases hx : x.path.text = path <;> simp [hx]

theorem Record.find_place (r : Record) (path : String) (files : List Record) :
    find path (r.place files) = if r.path.text = path then some r else find path files := by
  induction files with
  | nil => exact find_cons path r []
  | cons x files ih =>
    rw [place]
    split
    · rw [find_cons]
    · split
      · rename_i hx
        rw [find_cons, find_cons, hx]
        split <;> rfl
      · rename_i hx
        rw [find_cons, find_cons, ih]
        by_cases hr : r.path.text = path
        · have hne : ¬x.path.text = path := fun he => hx (NormalPath.ext (hr.trans he.symm))
          rw [if_pos hr, if_pos hr, if_neg hne]
        · rw [if_neg hr, if_neg hr]

namespace Snapshot

theorem get?_insert (s : Snapshot) (r : Record) (path : String) :
    (s.insert r).2.get? path = if r.path.text = path then some r else s.get? path :=
  Record.find_place r path s.files

@[simp] theorem name_gather (s : Snapshot) (records : List Record) :
    (s.gather records).1.name = s.name := by
  induction records generalizing s with
  | nil => rfl
  | cons r records ih => exact ih (s.insert r).2

/-- Of several records of one path the last is kept. -/
theorem get?_gather (s : Snapshot) (records : List Record) (path : String) :
    (s.gather records).1.get? path =
      (records.reverse.find? (·.path.text = path)).or (s.get? path) := by
  induction records generalizing s with
  | nil => rfl
  | cons r records ih =>
    rw [gather]
    change ((s.insert r).2.gather records).1.get? path = _
    rw [ih, get?_insert, List.reverse_cons, List.find?_append, Option.or_assoc]
    by_cases hr : r.path.text = path <;> simp [hr]

end Snapshot

namespace ScanSettings

variable {s : ScanSettings} {t : FileTree} {root : Location} {reads : Location → Reads}

/-- A file is recorded under its path. -/
theorem path_capture {here : Location} {r : Record} (h : s.capture reads here = .ok r) :
    r.path.text = here.recordedPath := by
  rw [(Reads.capture_eq_ok.1 h).1]
  exact Path.normalize_idem _

/-! ### The records of a scan -/

/-- The records of the selected files that can be captured, in the order of their locations. -/
def records (s : ScanSettings) (t : FileTree) (root : Location) (reads : Location → Reads) :
    List Record :=
  (s.selected t root).filterMap fun here => (s.capture reads here).toOption

/-- What a scan records under a path. -/
def record? (s : ScanSettings) (t : FileTree) (root : Location) (reads : Location → Reads)
    (path : String) : Option Record :=
  (s.records t root reads).reverse.find? (·.path.text = path)

/-- Whether a scan gives a snapshot: one that must not leave out anything finds nothing that it has to
leave out. -/
def Completes (s : ScanSettings) (t : FileTree) (root : Location) (reads : Location → Reads) : Prop :=
  s.onFailure = .abort → (∀ here, .unlisted here ∉ s.found t root) ∧
    ∀ here ∈ s.selected t root, ∃ r, s.capture reads here = .ok r

theorem firstFault_eq_ok {α : Type} {outcomes : List (Except Fault α)} {xs : List α} :
    firstFault outcomes = .ok xs ↔ outcomes = xs.map .ok := by
  induction outcomes generalizing xs with
  | nil =>
    rw [firstFault]
    cases xs <;> simp
  | cons outcome outcomes ih =>
    cases outcome with
    | error fault =>
      rw [firstFault]
      cases xs <;> simp
    | ok x =>
      rw [firstFault]
      constructor
      · intro h
        obtain ⟨rest, hrest, rfl⟩ := exists_of_map_ok h
        rw [List.map_cons, ih.1 hrest]
      · intro h
        cases xs with
        | nil => simp at h
        | cons y xs =>
          obtain ⟨hx, hrest⟩ := List.cons.inj h
          rw [ih.2 hrest, Except.ok.inj hx]
          rfl

theorem map_eq_map_ok {α β : Type} {f : α → Except Fault β} {xs : List α} {ys : List β} :
    xs.map f = ys.map .ok ↔
      (∀ x ∈ xs, ∃ y, f x = .ok y) ∧ ys = xs.filterMap fun x => (f x).toOption := by
  induction xs generalizing ys with
  | nil => cases ys <;> simp
  | cons x xs ih =>
    cases hx : f x with
    | error fault =>
      constructor
      · intro h
        cases ys with
        | nil => simp at h
        | cons y ys =>
          rw [List.map_cons, List.map_cons, hx] at h
          simp at h
      · intro h
        obtain ⟨y, hy⟩ := h.1 x List.mem_cons_self
        simp [hx] at hy
    | ok y =>
      have hvalue : (f x).toOption = some y := by rw [hx, Except.toOption]
      rw [List.filterMap_cons_some (f := fun x => (f x).toOption) hvalue, List.map_cons, hx]
      cases ys with
      | nil => simp
      | cons z ys =>
        rw [List.map_cons, List.cons_eq_cons, ih, List.cons_eq_cons, List.forall_mem_cons, hx]
        constructor
        · rintro ⟨h, hall, hrest⟩
          exact ⟨⟨⟨y, rfl⟩, hall⟩, (Except.ok.inj h).symm, hrest⟩
        · rintro ⟨⟨-, hall⟩, h, hrest⟩
          exact ⟨by rw [h], hall, hrest⟩

theorem unlistedFaults_eq_nil :
    s.unlistedFaults t root = [] ↔ ∀ here, .unlisted here ∉ s.found t root := by
  rw [unlistedFaults, List.map_eq_nil_iff, List.filterMap_eq_nil_iff]
  constructor
  · intro h here hmem
    simpa [Found.unlisted?] using h _ hmem
  · intro h f hf
    cases f with
    | file here => rfl
    | unlisted here => exact absurd hf (h here)

theorem captureAll_eq_ok {rs : List Record} :
    (∃ failures, s.captureAll t root reads = .ok (rs, failures)) ↔
      s.Completes t root reads ∧ rs = s.records t root reads := by
  rw [Completes, ← unlistedFaults_eq_nil]
  cases hpolicy : s.onFailure with
  | skip =>
    simp only [captureAll, hpolicy, reduceCtorEq, false_implies, true_and, List.filterMap_map]
    constructor
    · rintro ⟨failures, h⟩
      exact (Prod.mk.inj (Except.ok.inj h)).1.symm
    · intro h
      exact ⟨_, by rw [h]; rfl⟩
  | abort =>
    simp only [captureAll, hpolicy, forall_const, List.map_map]
    cases hunlisted : s.unlistedFaults t root with
    | cons fault faults => simp
    | nil =>
      simp only [true_and]
      rw [records, ← map_eq_map_ok, ← firstFault_eq_ok]
      constructor
      · rintro ⟨failures, h⟩
        obtain ⟨found, hfound, heq⟩ := exists_of_map_ok h
        rw [← (Prod.mk.inj heq).1]
        exact hfound
      · intro h
        refine ⟨[], ?_⟩
        change (firstFault ((s.selected t root).map (s.capture reads))).map _ = _
        rw [h]
        rfl

theorem selected_ascending : (s.selected t root).Pairwise (· ≤ ·) := by
  have htrans : ∀ a b c : Location, decide (a ≤ b) → decide (b ≤ c) → decide (a ≤ c) := by
    intro a b c hab hbc
    simpa using Std.le_trans (of_decide_eq_true hab) (of_decide_eq_true hbc)
  have htotal : ∀ a b : Location, decide (a ≤ b) || decide (b ≤ a) := by
    intro a b
    simpa using Std.le_total
  have hsorted := List.pairwise_mergeSort htrans htotal
    (((s.found t root).filterMap Found.file?).filter fun here => s.takes t (root ++ here))
  exact hsorted.imp fun h => of_decide_eq_true h

theorem mem_selected {here : Location} :
    here ∈ s.selected t root ↔ .file here ∈ s.found t root ∧ s.takes t (root ++ here) := by
  rw [selected, List.mem_mergeSort, List.mem_filter, List.mem_filterMap]
  refine and_congr_left fun _ => ⟨?_, fun h => ⟨_, h, rfl⟩⟩
  rintro ⟨f, hf, h⟩
  cases f with
  | file l => exact Option.some.inj h ▸ hf
  | unlisted l => simp [Found.file?] at h

theorem find?_reverse_filterMap {α β : Type} [LE α] [Std.IsLinearOrder α] {xs : List α}
    (hsorted : xs.Pairwise (· ≤ ·)) {f : α → Option β} {p : β → Bool} {y : β} :
    (xs.filterMap f).reverse.find? p = some y ↔
      ∃ x ∈ xs, f x = some y ∧ p y ∧ ∀ x' ∈ xs, (∃ y', f x' = some y' ∧ p y') → x' ≤ x := by
  induction xs with
  | nil => simp
  | cons a xs ih =>
    have hfirst : ∀ x ∈ xs, a ≤ x := fun x hx => List.rel_of_pairwise_cons hsorted hx
    have hrest := ih hsorted.of_cons
    cases ha : f a with
    | none =>
      rw [List.filterMap_cons_none ha, hrest]
      simp [ha]
    | some b =>
      rw [List.filterMap_cons_some ha, List.reverse_cons, List.find?_append, Option.or_eq_some_iff]
      constructor
      · rintro (h | ⟨hnone, h⟩)
        · obtain ⟨x, hx, hy, hp, hmax⟩ := hrest.1 h
          refine ⟨x, List.mem_cons_of_mem _ hx, hy, hp, ?_⟩
          intro x' hx' hgood
          rcases List.mem_cons.1 hx' with rfl | hx'
          · exact hfirst x hx
          · exact hmax x' hx' hgood
        · obtain ⟨hp, rfl⟩ : p b ∧ b = y := by simpa [List.find?_singleton] using h
          refine ⟨a, List.mem_cons_self, ha, hp, ?_⟩
          intro x' hx' hgood
          rcases List.mem_cons.1 hx' with rfl | hx'
          · exact Std.le_refl _
          · obtain ⟨y', hy', hp'⟩ := hgood
            have hmem : y' ∈ (xs.filterMap f).reverse :=
              List.mem_reverse.2 (List.mem_filterMap.2 ⟨x', hx', hy'⟩)
            exact absurd hp' (List.find?_eq_none.1 hnone y' hmem)
      · rintro ⟨x, hx, hy, hp, hmax⟩
        rcases List.mem_cons.1 hx with rfl | hx
        · obtain rfl : b = y := Option.some.inj (ha.symm.trans hy)
          cases hfound : (xs.filterMap f).reverse.find? p with
          | none => exact .inr ⟨rfl, by simp [hp]⟩
          | some y' =>
            have hmem := List.mem_reverse.1 (List.mem_of_find?_eq_some hfound)
            obtain ⟨x', hx', hy'⟩ := List.mem_filterMap.1 hmem
            have hle := hmax x' (List.mem_cons_of_mem _ hx') ⟨y', hy', List.find?_some hfound⟩
            rw [Std.le_antisymm hle (hfirst x' hx'), ha] at hy'
            exact .inl (by rw [Option.some.inj hy'])
        · exact .inl (hrest.2 ⟨x, hx, hy, hp, fun x' hx' => hmax x' (List.mem_cons_of_mem _ hx')⟩)

/-- The record under a path is that of the last file of the path that can be captured. -/
theorem record?_eq_some {path : String} {r : Record} :
    s.record? t root reads path = some r ↔
      ∃ here ∈ s.selected t root, here.recordedPath = path ∧ s.capture reads here = .ok r ∧
        ∀ other ∈ s.selected t root, other.recordedPath = path →
          (∃ r', s.capture reads other = .ok r') → other ≤ here := by
  rw [record?, records, find?_reverse_filterMap selected_ascending]
  simp only [toOption_eq_some, decide_eq_true_eq]
  constructor
  · rintro ⟨here, hmem, hr, hpath, hmax⟩
    refine ⟨here, hmem, (path_capture hr).symm.trans hpath, hr, ?_⟩
    intro other hother hp hok
    obtain ⟨r', hr'⟩ := hok
    exact hmax other hother ⟨r', hr', (path_capture hr').trans hp⟩
  · rintro ⟨here, hmem, hpath, hr, hmax⟩
    refine ⟨here, hmem, hr, (path_capture hr).trans hpath, ?_⟩
    intro other hother hok
    obtain ⟨r', hr', hp⟩ := hok
    exact hmax other hother ((path_capture hr').symm.trans hp) ⟨r', hr'⟩

/-- Something is recorded under the path of every file that is captured. -/
theorem record?_ne_none {here : Location} {r : Record} (hmem : here ∈ s.selected t root)
    (hr : s.capture reads here = .ok r) : s.record? t root reads here.recordedPath ≠ none := by
  intro hnone
  have hrecord : r ∈ (s.records t root reads).reverse :=
    List.mem_reverse.2 (List.mem_filterMap.2 ⟨here, hmem, by rw [hr, Except.toOption]⟩)
  exact List.find?_eq_none.1 hnone r hrecord (by simpa using path_capture hr)

/-- The snapshot that a scan gives if it gives one. -/
def gathered (s : ScanSettings) (t : FileTree) (root : Location) (reads : Location → Reads)
    (name : String) : Snapshot :=
  ((Snapshot.empty name).gather (s.records t root reads)).1

theorem get?_gathered (name path : String) :
    (s.gathered t root reads name).get? path = s.record? t root reads path := by
  rw [gathered, Snapshot.get?_gather, record?]
  exact Option.or_none

/-- The recorded paths are those of the selected files that can be captured. -/
theorem mem_paths_gathered {name path : String} :
    path ∈ (s.gathered t root reads name).paths ↔
      ∃ here ∈ s.selected t root, here.recordedPath = path ∧ ∃ r, s.capture reads here = .ok r := by
  simp only [Snapshot.mem_paths, get?_gathered]
  constructor
  · rintro ⟨r, hr⟩
    obtain ⟨here, hmem, hpath, hcaptured, -⟩ := record?_eq_some.1 hr
    exact ⟨here, hmem, hpath, r, hcaptured⟩
  · rintro ⟨here, hmem, rfl, r, hr⟩
    exact Option.ne_none_iff_exists'.1 (record?_ne_none hmem hr)

theorem scanAt_eq_ok {name : String} {before : Statistics} {snapshot : Snapshot} :
    (s.scanAt t root reads name before).map ScanResult.snapshot = .ok snapshot ↔
      s.Completes t root reads ∧ s.gathered t root reads name = snapshot := by
  rw [scanAt]
  constructor
  · intro h
    obtain ⟨result, hresult, rfl⟩ := exists_of_map_ok h
    split at hresult
    · simp at hresult
    · rename_i rs failures hall
      obtain ⟨hcompletes, rfl⟩ := captureAll_eq_ok.1 ⟨failures, hall⟩
      refine ⟨hcompletes, ?_⟩
      rw [← Except.ok.inj hresult]
      rfl
  · rintro ⟨hcompletes, rfl⟩
    obtain ⟨failures, hall⟩ := captureAll_eq_ok.2 ⟨hcompletes, rfl⟩
    rw [hall]
    rfl

/-- A scan of the target that reads attributes in a given way. -/
def scanWith (s : ScanSettings) (t : FileTree) (operations : Location → Reads) (name : String)
    (before : Statistics) : Except Fault ScanResult :=
  match t.resolve .existing s.target with
  | .error cause => .error (.io cause)
  | .ok root => s.scanAt t root (fun here => operations (root ++ here)) name before

/-- A scan reads the attributes of the files of its tree. -/
theorem scan_eq_scanWith (s : ScanSettings) (t : FileTree) (name : String) (before : Statistics) :
    s.scan t name before = s.scanWith t (fun location => t.reads location.path) name before := rfl

end ScanSettings

end FileCensus
