import FileCensus.Proofs.CaptureOutcome

/-!
# The reads of a capture

What a capture has to do is said by the checked attributes and what reading each of them gives: they
are read in their order up to the first read that fails, and that failure is the outcome. If none
fails the outcome is a record of the values that were read. A capture makes these reads and no others.
-/

namespace FileCensus

namespace Reads

/-- What reading an attribute gives. -/
def read (reads : Reads) (mode : HashMode) : (a : Attribute) → Except Fault a.Value
  | .size => reads.size
  | .modified => reads.modified
  | .md5 => reads.digest mode
  | .permissions => reads.permissions

/-- Reading an attribute fails for good. Permissions may be unknown to the system. -/
structure Fails (reads : Reads) (mode : HashMode) (a : Attribute) (fault : Fault) : Prop where
  error : reads.read mode a = .error fault
  fatal : a = .permissions → ∀ b path, fault ≠ .unsupported b path

/-- The read that is for an attribute; a digest is read in the mode of the checks. -/
def readFor (mode : HashMode) : Attribute → Read
  | .size => .size
  | .modified => .modified
  | .md5 => .digest mode
  | .permissions => .permissions

/-- What a capture of some attributes has to do and to give. -/
inductive Requires (reads : Reads) (mode : HashMode) (attributes : List Attribute)
    (path : NormalPath) : Capture → Prop
  | failed (front : List Attribute) (a : Attribute) (back : List Attribute) (fault : Fault)
      (hparts : attributes = front ++ a :: back) (hfront : ∀ b ∈ front, ∀ f, ¬reads.Fails mode b f)
      (hfails : reads.Fails mode a fault) :
      Requires reads mode attributes path ⟨(front ++ [a]).map (readFor mode), .error fault⟩
  | finished (r : Record) (hnone : ∀ a ∈ attributes, ∀ f, ¬reads.Fails mode a f)
      (hpath : r.path = path)
      (hcaptured : ∀ a v, r.captured a = some v ↔ a ∈ attributes ∧ reads.read mode a = .ok v) :
      Requires reads mode attributes path ⟨attributes.map (readFor mode), .ok r⟩

variable {reads : Reads} {mode : HashMode} {a : Attribute} {fault : Fault}

theorem of_eq_readFor (mode : HashMode) : Read.of mode = readFor mode := by
  funext a
  cases a <;> rfl

theorem isUnsupported_iff : fault.isUnsupported ↔ ∃ b path, fault = .unsupported b path := by
  cases fault <;> simp [Fault.isUnsupported]

/-- What is learned of an attribute, from what reading it gives. -/
theorem obtained_eq (reads : Reads) (mode : HashMode) (a : Attribute) :
    reads.obtained mode a =
      match reads.read mode a with
      | .ok v => .ok (some v)
      | .error fault =>
        if a = .permissions ∧ fault.isUnsupported then .ok none else .error fault := by
  cases a with
  | size =>
    rw [obtained, read]
    cases reads.size <;> rfl
  | modified =>
    rw [obtained, read]
    cases reads.modified <;> rfl
  | md5 =>
    rw [obtained, read]
    cases reads.digest mode <;> rfl
  | permissions =>
    rw [obtained, read]
    cases reads.permissions <;> simp

theorem obtained_eq_error : reads.obtained mode a = .error fault ↔ reads.Fails mode a fault := by
  rw [obtained_eq]
  constructor
  · intro h
    split at h
    · simp at h
    · rename_i f hread
      split at h
      · simp at h
      · rename_i hfatal
        rw [← Except.error.inj h]
        refine ⟨hread, ?_⟩
        rintro ha b path rfl
        exact hfatal ⟨ha, rfl⟩
  · intro h
    have hfatal : ¬(a = .permissions ∧ fault.isUnsupported) := by
      rintro ⟨ha, hunsupported⟩
      obtain ⟨b, path, hfault⟩ := isUnsupported_iff.1 hunsupported
      exact h.fatal ha b path hfault
    simp only [h.error, if_neg hfatal]

theorem obtained_eq_ok {v : Option a.Value} : reads.obtained mode a = .ok v ↔
    (∀ f, ¬reads.Fails mode a f) ∧ ∀ x, v = some x ↔ reads.read mode a = .ok x := by
  simp only [← obtained_eq_error]
  rw [obtained_eq]
  cases hread : reads.read mode a with
  | ok y =>
    simp only [reduceCtorEq, not_false_eq_true, implies_true, true_and, Except.ok.injEq]
    constructor
    · rintro rfl x
      exact Option.some_inj
    · intro h
      exact ((h y).2 rfl).symm
  | error f =>
    simp only
    split
    · simp [Option.eq_none_iff_forall_ne_some, eq_comm]
    · simp

theorem fill_eq_error {r : Record} :
    reads.fill mode r a = .error fault ↔ reads.Fails mode a fault := by
  rw [← obtained_eq_error]
  cases a with
  | size =>
    rw [fill, obtained]
    cases reads.size <;> simp [Except.map]
  | modified =>
    rw [fill, obtained]
    cases reads.modified <;> simp [Except.map]
  | md5 =>
    rw [fill, obtained]
    cases reads.digest mode <;> simp [Except.map]
  | permissions =>
    rw [fill, obtained]
    cases reads.permissions with
    | ok permissions => simp
    | error f =>
      simp only
      split <;> simp

theorem exists_fill (h : ∀ f, ¬reads.Fails mode a f) (r : Record) :
    ∃ r', reads.fill mode r a = .ok r' := by
  cases hfill : reads.fill mode r a with
  | error fault => exact absurd (fill_eq_error.1 hfill) (h fault)
  | ok r' => exact ⟨r', rfl⟩

/-- The first failure ends the reads, whatever was to be read after it. -/
theorem fillAll_failed {front back : List Attribute}
    (hfront : ∀ b ∈ front, ∀ f, ¬reads.Fails mode b f) (hfails : reads.Fails mode a fault) (r : Record) :
    reads.fillAll mode (front ++ a :: back) r = ⟨(front ++ [a]).map (readFor mode), .error fault⟩ := by
  induction front generalizing r with
  | nil =>
    rw [List.nil_append, fillAll, fill_eq_error.2 hfails, of_eq_readFor]
    rfl
  | cons b front ih =>
    obtain ⟨hb, hfront⟩ := List.forall_mem_cons.1 hfront
    obtain ⟨r', hr'⟩ := exists_fill hb r
    rw [List.cons_append, fillAll, hr']
    simp only [ih hfront r', of_eq_readFor, List.cons_append, List.map_cons]

/-- Without a failure everything is read. -/
theorem fillAll_finished {attributes : List Attribute}
    (hnone : ∀ a ∈ attributes, ∀ f, ¬reads.Fails mode a f) (r : Record) :
    ∃ r', reads.fillAll mode attributes r = ⟨attributes.map (readFor mode), .ok r'⟩ := by
  induction attributes generalizing r with
  | nil => exact ⟨r, rfl⟩
  | cons a rest ih =>
    obtain ⟨ha, hrest⟩ := List.forall_mem_cons.1 hnone
    obtain ⟨next, hnext⟩ := exists_fill ha r
    obtain ⟨r', hr'⟩ := ih hrest next
    refine ⟨r', ?_⟩
    rw [fillAll, hnext]
    simp only [hr', of_eq_readFor, List.map_cons]

/-- Either no read fails or there is a first one that does. -/
theorem fails_cases (reads : Reads) (mode : HashMode) (attributes : List Attribute) :
    (∀ a ∈ attributes, ∀ f, ¬reads.Fails mode a f) ∨
      ∃ front a back fault, attributes = front ++ a :: back ∧
        (∀ b ∈ front, ∀ f, ¬reads.Fails mode b f) ∧ reads.Fails mode a fault := by
  induction attributes with
  | nil => exact .inl fun a h => absurd h List.not_mem_nil
  | cons a rest ih =>
    by_cases ha : ∃ fault, reads.Fails mode a fault
    · obtain ⟨fault, hfails⟩ := ha
      exact .inr ⟨[], a, rest, fault, rfl, fun b h => absurd h List.not_mem_nil, hfails⟩
    · have hfirst : ∀ f, ¬reads.Fails mode a f := not_exists.1 ha
      rcases ih with hrest | ⟨front, b, back, fault, rfl, hfront, hfails⟩
      · exact .inl (List.forall_mem_cons.2 ⟨hfirst, hrest⟩)
      · exact .inr ⟨a :: front, b, back, fault, rfl, List.forall_mem_cons.2 ⟨hfirst, hfront⟩, hfails⟩

section

variable {checks : Checks} {rule : Option Rule} {path : NormalPath}

theorem mem_checked :
    a ∈ Attribute.all.filter (shouldCheck checks rule) ↔ shouldCheck checks rule a := by
  simp

/-- A capture that reads everything gives a record of exactly what was read. -/
theorem capture_eq_ok_iff (hnone : ∀ a ∈ Attribute.all.filter (shouldCheck checks rule), ∀ f,
    ¬reads.Fails checks.hashMode a f) {r : Record} :
    (reads.capture checks rule path).outcome = .ok r ↔ r.path = path ∧
      ∀ a v, r.captured a = some v ↔
        a ∈ Attribute.all.filter (shouldCheck checks rule) ∧
          reads.read checks.hashMode a = .ok v := by
  rw [capture_eq_ok]
  refine and_congr_right fun _ => forall_congr' fun a => ?_
  by_cases hchecked : shouldCheck checks rule a
  · have ha := mem_checked.2 hchecked
    simp only [hchecked, if_true, obtained_eq_ok, ha, true_and]
    exact and_iff_right (hnone a ha)
  · simp only [hchecked, mem_checked, false_and, iff_false, Option.eq_none_iff_forall_ne_some,
      Bool.false_eq_true, if_false, ne_eq]

/-- Whatever a record holds was read. -/
theorem read_of_captured {r : Record} (h : (reads.capture checks rule path).outcome = .ok r)
    {v : a.Value} (hv : r.captured a = some v) : reads.read checks.hashMode a = .ok v := by
  have hcaptured := (capture_eq_ok.1 h).2 a
  by_cases hchecked : shouldCheck checks rule a
  · rw [if_pos hchecked] at hcaptured
    exact ((obtained_eq_ok.1 hcaptured).2 v).1 hv
  · rw [if_neg hchecked, hv] at hcaptured
    exact absurd hcaptured (Option.some_ne_none v)

theorem requires_capture (reads : Reads) (checks : Checks) (rule : Option Rule) (path : NormalPath) :
    reads.Requires checks.hashMode (Attribute.all.filter (shouldCheck checks rule)) path
      (reads.capture checks rule path) := by
  rcases reads.fails_cases checks.hashMode (Attribute.all.filter (shouldCheck checks rule)) with
    hnone | ⟨front, a, back, fault, hparts, hfront, hfails⟩
  · obtain ⟨r, hr⟩ := fillAll_finished hnone (.unknown path)
    have hcapture : reads.capture checks rule path = ⟨_, .ok r⟩ := hr
    obtain ⟨hpath, hcaptured⟩ := (capture_eq_ok_iff hnone).1 (congrArg Capture.outcome hcapture)
    rw [hcapture]
    exact .finished r hnone hpath hcaptured
  · rw [Reads.capture, hparts, fillAll_failed hfront hfails]
    exact .failed front a back fault rfl hfront hfails

/-- What is required determines the capture. -/
theorem Requires.eq_capture {capture : Capture} (h : reads.Requires checks.hashMode
    (Attribute.all.filter (shouldCheck checks rule)) path capture) :
    capture = reads.capture checks rule path := by
  cases h with
  | failed front a back fault hparts hfront hfails =>
    rw [Reads.capture, hparts, fillAll_failed hfront hfails]
  | finished r hnone hpath hcaptured =>
    obtain ⟨r', hr'⟩ := fillAll_finished hnone (.unknown path)
    have hcapture : reads.capture checks rule path = ⟨_, .ok r'⟩ := hr'
    have houtcome := (capture_eq_ok_iff hnone).2 ⟨hpath, hcaptured⟩
    rw [hcapture] at houtcome ⊢
    rw [Except.ok.inj houtcome]

end

/-- A capture makes the reads of the checked attributes in their order, up to the first one that
fails, and ends with that failure or with a record of exactly what was read. -/
theorem requires_iff (reads : Reads) (checks : Checks) (rule : Option Rule) (logicalPath : String)
    (capture : Capture) :
    reads.Requires checks.hashMode (Attribute.all.filter (shouldCheck checks rule)) (.of logicalPath)
        capture ↔
      capture = reads.capture checks rule (.of logicalPath) := by
  constructor
  · exact Requires.eq_capture
  · rintro rfl
    exact reads.requires_capture checks rule (.of logicalPath)

end Reads

end FileCensus
