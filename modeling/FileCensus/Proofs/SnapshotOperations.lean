import FileCensus.Proofs.ByteOrder
import FileCensus.Proofs.DocumentRoundTrip
import FileCensus.Proofs.ElementReading
import FileCensus.Proofs.ScanRecords
import Mathlib.Data.Finset.Card

/-!
# Snapshots that are worked on

A snapshot into which records are inserted, in any order and under any spellings of their paths, holds
for each path the record inserted last. Renaming it, or writing it out and reading it again, changes
nothing about that. Whatever document is read, its snapshot represents the files of the document in
the same way.
-/

namespace FileCensus

open Utf8 (encode)

/-- The record under another path, whose spelling need not be in normal form. -/
def Record.under (r : Record) (spelling : String) : Record := { r with path := .of spelling }

namespace Snapshot

/-! ### Representing records -/

/-- What a snapshot is after some records have been inserted in order: each key is the path of what is
found there, keys are in normal form and ascend by their bytes, and a path in any spelling leads to
the record inserted last. -/
structure Represents (s : Snapshot) (records : List Record) : Prop where
  stored : ∀ path r, s.get? path = some r ↔ r ∈ s.files ∧ r.path.text = path
  normal : ∀ path ∈ s.paths, Path.normalize path = path
  ascending : (s.paths.map encode).Pairwise (· < ·)
  size : s.size = (records.map (·.path)).toFinset.card
  last : ∀ spelling, s.get? (Path.normalize spelling) =
    records.reverse.find? (·.path = .of spelling)

variable {s : Snapshot} {records : List Record}

theorem nodup_files_path (s : Snapshot) : (s.files.map (·.path)).Nodup := by
  refine List.pairwise_map.2 (List.Pairwise.imp ?_ s.ascending)
  intro a b hlt he
  rw [he] at hlt
  exact String.lt_irrefl _ hlt

theorem get?_path {p : NormalPath} {r : Record} :
    s.get? p.text = some r ↔ r ∈ s.files ∧ r.path = p := by
  rw [get?_eq_some, NormalPath.ext_iff]

/-- The look-up decides the rest. -/
theorem represents_of_get? (h : ∀ p : NormalPath, s.get? p.text =
    records.reverse.find? (·.path = p)) : s.Represents records where
  stored _ _ := get?_eq_some
  normal := by
    intro path hmem
    obtain ⟨r, -, rfl⟩ := List.mem_map.1 hmem
    exact r.path.normal
  ascending := s.paths_ascending.map _ fun _ _ => Utf8.encode_lt
  size := by
    have hpaths : (s.files.map (·.path)).toFinset = (records.map (·.path)).toFinset := by
      ext p
      simp only [List.mem_toFinset, List.mem_map]
      constructor
      · rintro ⟨r, hr, rfl⟩
        have hfound := h r.path
        rw [get?_path.2 ⟨hr, rfl⟩] at hfound
        have hmem := List.mem_reverse.1 (List.mem_of_find?_eq_some hfound.symm)
        exact ⟨r, hmem, rfl⟩
      · rintro ⟨r, hr, rfl⟩
        cases hfound : s.get? r.path.text with
        | some x => exact ⟨x, get?_path.1 hfound⟩
        | none =>
          rw [h r.path] at hfound
          exact absurd (decide_eq_true rfl) (List.find?_eq_none.1 hfound r (List.mem_reverse.2 hr))
    rw [← hpaths, List.toFinset_card_of_nodup s.nodup_files_path, List.length_map]
    rfl
  last spelling := h (.of spelling)

/-- A snapshot represents its own files, in whatever order they are inserted. -/
theorem represents_of_perm (h : s.files.Perm records) : s.Represents records := by
  apply represents_of_get?
  intro p
  have hnodup : (records.map (·.path)).Nodup := (h.map _).nodup_iff.1 s.nodup_files_path
  cases hfound : records.reverse.find? (·.path = p) with
  | none =>
    refine Option.eq_none_iff_forall_ne_some.2 fun r hr => ?_
    obtain ⟨hmem, hpath⟩ := get?_path.1 hr
    exact List.find?_eq_none.1 hfound r (List.mem_reverse.2 (h.mem_iff.1 hmem)) (decide_eq_true hpath)
  | some r =>
    have hmem := List.mem_reverse.1 (List.mem_of_find?_eq_some hfound)
    have hpath := List.find?_some hfound
    exact get?_path.2 ⟨h.mem_iff.2 hmem, of_decide_eq_true hpath⟩

/-! ### Runs of operations -/

/-- What can be done with a snapshot. A record is inserted under a path in any spelling; to reload is
to write the snapshot out and read it again. -/
inductive Operation where
  | insert (spelling : String) (values : Record)
  | rename (name : String)
  | reload (origin : Document.Origin)

/-- The answer to an operation and the snapshot after it. Reloading that fails keeps the snapshot. -/
def perform (s : Snapshot) : Operation → Option Record × Snapshot
  | .insert spelling values => s.insert (values.under spelling)
  | .rename name => (none, s.rename name)
  | .reload origin =>
    match Document.readBytes (Document.writeBytes origin s) with
    | .ok again => (none, again)
    | .error _ => (none, s)

def performAll (s : Snapshot) (operations : List Operation) : Snapshot :=
  operations.foldl (fun s operation => (s.perform operation).2) s

/-- The record that an operation inserts. -/
def Operation.inserted? : Operation → Option Record
  | .insert spelling values => some (values.under spelling)
  | .rename _ => none
  | .reload _ => none

/-- Only an insertion changes what is found. -/
theorem get?_perform (s : Snapshot) (operation : Operation) (p : NormalPath) :
    (s.perform operation).2.get? p.text =
      (operation.inserted?.toList.find? (·.path = p)).or (s.get? p.text) := by
  cases operation with
  | insert spelling values =>
    rw [perform, get?_insert, Operation.inserted?, Option.toList_some, List.find?_singleton]
    by_cases hp : (values.under spelling).path = p
    · simp [hp]
    · rw [if_neg fun he => hp (NormalPath.ext he)]
      simp [hp]
  | rename name => rfl
  | reload origin =>
    have hread := Document.readBytes_writeBytes origin s
    rw [perform, hread]
    cases Record.firstTimeFault? 1 s.files <;> rfl

theorem get?_performAll (s : Snapshot) (operations : List Operation) (p : NormalPath) :
    (s.performAll operations).get? p.text =
      ((operations.filterMap Operation.inserted?).reverse.find? (·.path = p)).or
        (s.get? p.text) := by
  induction operations generalizing s with
  | nil => rfl
  | cons operation operations ih =>
    rw [performAll, List.foldl_cons]
    change ((s.perform operation).2.performAll operations).get? p.text = _
    rw [ih, get?_perform, List.filterMap_cons]
    cases operation.inserted? with
    | none => rfl
    | some r => rw [Option.toList_some, List.reverse_cons, List.find?_append, Option.or_assoc]

theorem represents_performAll (name : String) (operations : List Operation) :
    ((empty name).performAll operations).Represents
      (operations.filterMap Operation.inserted?) := by
  apply represents_of_get?
  intro p
  rw [get?_performAll]
  exact Option.or_none

end Snapshot

/-! ### Documents -/

namespace Document

open Markup

/-- The file elements of a source, in order. -/
def fileElements (source : Source) : List Tag := fileTags (Outline.of (events source).found)

/-- The snapshot of a document holds what its file elements say, one record for each. -/
theorem perm_of_readSource {source : Source} {s : Snapshot} (h : readSource source = .ok s) :
    (s.files.map some).Perm ((fileElements source).map record?) := by
  have hevents := Outline.events_of (balanced_found source)
  have hread : readEvents ⟨(Outline.of (events source).found).events, none⟩ = .ok s := by
    rw [readSource, readEvents] at h
    rw [hevents, readEvents]
    cases hsteps : Progress.start.steps (events source).found with
    | error fault => simp [hsteps] at h
    | ok p =>
      rw [hsteps] at h
      cases hfault : (events source).fault with
      | some fault => simp [hfault] at h
      | none => simpa only [hfault] using h
  rcases readEvents_cases (Outline.of (events source).found) with
    ⟨fault, -, hfault⟩ | ⟨-, -, t, -, hok, -, hperm⟩
  · rw [hfault] at hread
    simp at hread
  · obtain rfl : t = s := Except.ok.inj (hok.symm.trans hread)
    exact hperm

/-- A document that is accepted has no two files of one path. -/
theorem represents_of_readSource {source : Source} {s : Snapshot} (h : readSource source = .ok s) :
    s.Represents ((fileElements source).filterMap record?) ∧ s.size = (fileElements source).length := by
  have hperm := perm_of_readSource h
  constructor
  · apply Snapshot.represents_of_perm
    have hfiles := hperm.filterMap id
    rwa [List.filterMap_map, List.filterMap_map, Function.id_comp, Function.id_comp,
      List.filterMap_some] at hfiles
  · have hlength := hperm.length_eq
    rwa [List.length_map, List.length_map] at hlength

end Document

namespace Snapshot

/-- Whatever is done with a snapshot, it represents what was inserted, and an insertion answers with
the record it replaces, the last of the same path. A snapshot that is read represents the file elements
of its document, no two of which have one path. -/
theorem represents_inserted :
    (∀ name operations,
      ((empty name).performAll operations).Represents (operations.filterMap Operation.inserted?) ∧
      ∀ spelling values,
        (((empty name).performAll operations).perform (.insert spelling values)).1 =
          (operations.filterMap Operation.inserted?).reverse.find? (·.path = .of spelling)) ∧
    ∀ source s, Document.readSource source = .ok s →
      s.Represents ((Document.fileElements source).filterMap Document.record?) ∧
        s.size = (Document.fileElements source).length := by
  refine ⟨fun name operations => ?_, fun source s h => Document.represents_of_readSource h⟩
  have hrepresents := represents_performAll name operations
  exact ⟨hrepresents, fun spelling values => hrepresents.last spelling⟩

/-- A record of one captured value. -/
def sized (size : UInt64) : Record := { Record.unknown (.of "") with size := some size }

/-- A reloaded snapshot knows the path of a record in another spelling, and a document of one file is
read as one record. -/
theorem represents_inserted_spellings :
    let operations := [.insert "a\\b" (sized 1), .insert "c" (sized 2), .reload ⟨"host", "os"⟩]
    let s := (empty "").performAll operations
    let written := ((empty "").insert ((sized 1).under "a\\b")).2
    let source : Source := .whole (Document.writeBytes ⟨"host", "os"⟩ written)
    (s.perform (.insert "a//b/" (sized 3))).1 = some ((sized 1).under "a/b") ∧ s.size = 2 ∧
      Document.readSource source = .ok written ∧ (Document.fileElements source).length = 1 := by
  intro operations s written source
  obtain ⟨hrun, hread⟩ := represents_inserted
  obtain ⟨hrepresents, hanswer⟩ := hrun "" operations
  have hwritten : Document.readSource source = .ok written :=
    Document.readBytes_writeBytes ⟨"host", "os"⟩ written
  exact ⟨(hanswer "a//b/" (sized 3)).trans (by decide +kernel),
    hrepresents.size.trans (by decide +kernel), hwritten, (hread _ _ hwritten).2.symm⟩

end Snapshot

end FileCensus
