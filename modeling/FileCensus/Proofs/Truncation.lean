import FileCensus.Proofs.ReadingProgress
import FileCensus.Proofs.WrittenDocument

/-!
# Documents that are cut off

A document that lacks its last bytes is never read as a snapshot. Wherever the cut falls, the events
before it leave the outermost element open, and only closing that element makes a document complete.
-/

namespace FileCensus.Document

open Markup Utf8

namespace Progress

theorem step_selfClosing_frame {p q : Progress} {tag : Tag} (hd : p.depth ≠ 0)
    (h : p.step (.selfClosing tag) = .ok q) : q.depth = p.depth ∧ q.closed = p.closed := by
  obtain ⟨entered, henter, rfl⟩ := exists_of_map_ok h
  obtain ⟨hdepth, hclosed⟩ := enter_frame henter
  rw [if_neg (by rw [hdepth]; exact hd)]
  exact ⟨hdepth, hclosed⟩

theorem steps_selfClosing_frame {p q : Progress} {tags : List Tag} (hd : p.depth ≠ 0)
    (h : p.steps (tags.map .selfClosing) = .ok q) : q.closed = p.closed := by
  induction tags generalizing p with
  | nil =>
    obtain rfl := Except.ok.inj h
    rfl
  | cons tag tags ih =>
    rw [List.map_cons, steps] at h
    split at h
    · simp at h
    · rename_i next hstep
      obtain ⟨hdepth, hclosed⟩ := step_selfClosing_frame hd hstep
      rw [ih (by rw [hdepth]; exact hd) h, hclosed]

theorem finish_of_open {p : Progress} (h : p.closed = false) : ∃ fault, p.finish = .error fault := by
  rw [finish]
  cases p.snapshot with
  | none => exact ⟨_, rfl⟩
  | some s => exact ⟨_, if_neg (by rw [h]; exact Bool.noConfusion)⟩

end Progress

/-- Events after which the outermost element is not closed give no snapshot. -/
theorem readEvents_of_open {es : EventList}
    (h : ∀ p, Progress.start.steps es.found = .ok p → p.closed = false) :
    ∃ fault, readEvents es = .error fault := by
  rw [readEvents]
  cases hsteps : Progress.start.steps es.found with
  | error fault => exact ⟨fault, rfl⟩
  | ok p =>
    cases es.fault with
    | some fault => exact ⟨.markup fault, rfl⟩
    | none => exact Progress.finish_of_open (h p hsteps)

/-- An opening tag and elements inside it leave the document open. -/
theorem readEvents_of_unclosed {es : EventList} {root : Tag} {tags : List Tag}
    (h : es.found = .opening root :: tags.map .selfClosing) :
    ∃ fault, readEvents es = .error fault := by
  apply readEvents_of_open
  intro p hp
  rw [h, Progress.steps] at hp
  split at hp
  · simp at hp
  · rename_i inside hstep
    obtain ⟨entered, henter, rfl⟩ := exists_of_map_ok hstep
    have hclosed := Progress.steps_selfClosing_frame (Nat.succ_ne_zero _) hp
    rw [hclosed]
    exact (Progress.enter_frame henter).2

/-! ### The events before a cut -/

/-- Between the files a cut leaves some files and no closing tag. -/
theorem found_take_files {files : List Record} {n : Nat}
    (hn : n < (files.flatMap (fun r => (filePiece r).bytes) ++ closingPiece.bytes).length) :
    ∃ tags : List Tag, (eventsWithin none inside ((files.flatMap (fun r => (filePiece r).bytes)
      ++ closingPiece.bytes).take n)).found = tags.map .selfClosing := by
  induction files generalizing n with
  | nil => exact ⟨[], closingPiece.found_take hn inside⟩
  | cons r files ih =>
    rw [List.flatMap_cons, List.append_assoc] at hn ⊢
    rcases (filePiece r).eventsWithin_take inside _ n with hnone | ⟨m, rfl, hmore⟩
    · exact ⟨[], hnone⟩
    · have hm : m < (files.flatMap (fun r => (filePiece r).bytes) ++ closingPiece.bytes).length := by
        rw [List.length_append] at hn
        omega
      obtain ⟨tags, htags⟩ := ih hm
      refine ⟨fileTag r :: tags, ?_⟩
      rw [hmore, List.map_cons, ← htags]
      rfl

theorem events_take (origin : Origin) (s : Snapshot) (n : Nat) :
    events (.whole ((writeBytes origin s).take n)) =
      eventsWithin none [] ((writeBytes origin s).take n) := by
  obtain ⟨more, hmore⟩ : ∃ more, writeBytes origin s = byte '<' :: more := by
    rw [writeBytes_eq]
    exact ⟨_, rfl⟩
  rw [hmore]
  cases n with
  | zero => rfl
  | succ n =>
    rw [List.take_succ_cons]
    exact events_declaration _

/-- A cut leaves nothing of the outermost element, or its opening tag and some files. -/
theorem found_take_writeBytes (origin : Origin) (s : Snapshot) {n : Nat}
    (hn : n < (writeBytes origin s).length) :
    (events (.whole ((writeBytes origin s).take n))).found = [] ∨
      ∃ tags : List Tag, (events (.whole ((writeBytes origin s).take n))).found =
        .opening (rootTag origin s.name) :: tags.map .selfClosing := by
  rw [events_take]
  rw [writeBytes_eq] at hn ⊢
  rcases declarationPiece.eventsWithin_take [] _ n with hnone | ⟨m, rfl, hmore⟩
  · exact .inl hnone
  · rw [hmore]
    change (eventsWithin none [] _).found = [] ∨ ∃ tags : List Tag, (eventsWithin none [] _).found = _
    rcases (rootPiece origin s.name).eventsWithin_take [] _ m with hnone | ⟨k, rfl, hmore⟩
    · exact .inl hnone
    · have hk : k < (s.files.flatMap (fun r => (filePiece r).bytes)
          ++ closingPiece.bytes).length := by
        rw [List.length_append, List.length_append] at hn
        omega
      obtain ⟨tags, htags⟩ := found_take_files hk
      refine .inr ⟨tags, ?_⟩
      rw [hmore, eventsBefore_opening, ← htags]
      rfl

/-- No proper prefix of a written document is read as a snapshot. -/
theorem readBytes_of_proper_prefix {origin : Origin} {s : Snapshot} {bytes : Bytes}
    (hp : bytes <+: writeBytes origin s) (hne : bytes ≠ writeBytes origin s) :
    ∃ fault, readBytes bytes = .error fault := by
  have htake := List.prefix_iff_eq_take.1 hp
  have hlt : bytes.length < (writeBytes origin s).length :=
    Nat.lt_of_le_of_ne hp.length_le fun he => hne (hp.eq_of_length he)
  rw [htake, readBytes, readSource]
  rcases found_take_writeBytes origin s hlt with hnone | ⟨tags, htags⟩
  · apply readEvents_of_open
    intro p hp
    rw [hnone] at hp
    obtain rfl := Except.ok.inj hp
    rfl
  · exact readEvents_of_unclosed htags

/-- A named snapshot of two files. -/
def twoFiles : Snapshot :=
  let s := ((Snapshot.empty "A & B").insert ⟨.of "a", none, none, some "e", none⟩).2
  (s.insert ⟨.of "b", some 7, none, none, none⟩).2

/-- Its document up to the end of the first file. -/
def firstFile : Bytes := encode <|
  "<?xml version=\"1.0\" encoding=\"UTF-8\"?>\n<snapshot name=\"A &amp; B\" host=\"h\" os=\"linux\" "
    ++ "created=\"c\">\n  <file path=\"a\" md5=\"e\"/>"

/-- Cut between its two files, the document is not read as a snapshot of the first one. -/
theorem readBytes_firstFile : twoFiles.name = "A & B" ∧ twoFiles.paths = ["a", "b"] ∧
    firstFile <+: writeBytes ⟨"h", "c"⟩ twoFiles ∧ ∃ fault, readBytes firstFile = .error fault := by
  have hprefix : firstFile <+: writeBytes ⟨"h", "c"⟩ twoFiles := by decide +kernel
  refine ⟨rfl, by decide +kernel, hprefix, readBytes_of_proper_prefix hprefix ?_⟩
  decide +kernel

end FileCensus.Document
