import FileCensus.Capture
import FileCensus.Proofs.CapturedValues

/-!
# What a capture records

A capture succeeds if every checked attribute can be read, and then it records the value of each of
these and of no other. What a capture of everything records is therefore enough to know every other
one: the values that are not checked are dropped.
-/

namespace FileCensus

namespace Record

/-- The record with what is known of one attribute replaced. -/
def put (r : Record) : (a : Attribute) → Option a.Value → Record
  | .size, size => { r with size := size }
  | .modified, modified => { r with modified := modified }
  | .md5, md5 => { r with md5 := md5 }
  | .permissions, permissions => { r with permissions := permissions }

@[simp] theorem path_put (r : Record) (a : Attribute) (v : Option a.Value) :
    (r.put a v).path = r.path := by
  cases a <;> rfl

@[simp] theorem captured_put_same (r : Record) (a : Attribute) (v : Option a.Value) :
    (r.put a v).captured a = v := by
  cases a <;> rfl

theorem captured_put_other (r : Record) {a b : Attribute} (h : b ≠ a) (v : Option a.Value) :
    (r.put a v).captured b = r.captured b := by
  cases a <;> cases b <;> first | rfl | exact absurd rfl h

end Record

namespace Reads

/-- What a capture learns of an attribute: its value, or nothing of permissions that the system does
not know. -/
def obtained (reads : Reads) (mode : HashMode) : (a : Attribute) → Except Fault (Option a.Value)
  | .size => reads.size.map some
  | .modified => reads.modified.map some
  | .md5 => (reads.digest mode).map some
  | .permissions =>
    match reads.permissions with
    | .ok permissions => .ok (some permissions)
    | .error fault => if fault.isUnsupported then .ok none else .error fault

variable {reads : Reads} {mode : HashMode}

theorem fill_eq {r : Record} {a : Attribute} (h : r.captured a = none) :
    reads.fill mode r a = (reads.obtained mode a).map (r.put a) := by
  cases a with
  | size =>
    rw [fill, obtained]
    cases reads.size <;> rfl
  | modified =>
    rw [fill, obtained]
    cases reads.modified <;> rfl
  | md5 =>
    rw [fill, obtained]
    cases reads.digest mode <;> rfl
  | permissions =>
    have hsame : r.put .permissions none = r := by
      cases r
      exact congrArg _ h.symm
    rw [fill, obtained]
    cases reads.permissions with
    | ok permissions => rfl
    | error fault =>
      cases hunsupported : fault.isUnsupported with
      | false => simp only [hunsupported, Bool.false_eq_true, if_false, Except.map]
      | true => simp only [hunsupported, if_true, Except.map, hsame]

/-- Reading attributes that are still unknown gives a record with what was obtained of each, and with
the others as before. -/
theorem fillAll_eq_ok {attributes : List Attribute} (hnodup : attributes.Nodup) {r r' : Record}
    (hnone : ∀ a ∈ attributes, r.captured a = none) :
    (reads.fillAll mode attributes r).outcome = .ok r' ↔ r'.path = r.path ∧
      ∀ a, if a ∈ attributes then reads.obtained mode a = .ok (r'.captured a)
        else r'.captured a = r.captured a := by
  induction attributes generalizing r with
  | nil =>
    simp only [fillAll, Except.ok.injEq, List.not_mem_nil, if_false]
    constructor
    · rintro rfl
      exact ⟨rfl, fun _ => rfl⟩
    · rintro ⟨hpath, hcaptured⟩
      exact Record.ext_captured hpath.symm fun a => (hcaptured a).symm
  | cons a rest ih =>
    obtain ⟨hnew, hrest⟩ := List.nodup_cons.1 hnodup
    rw [fillAll, fill_eq (hnone a List.mem_cons_self)]
    cases hobtained : reads.obtained mode a with
    | error fault =>
      simp only [Except.map, reduceCtorEq, false_iff, not_and]
      intro _ hall
      have ha := hall a
      rw [if_pos List.mem_cons_self, hobtained] at ha
      simp at ha
    | ok v =>
      -- No attribute comes twice, so the rest is still unknown in the record that goes on.
      have hnone' : ∀ b ∈ rest, (r.put a v).captured b = none := by
        intro b hb
        have hne : b ≠ a := fun he => hnew (he ▸ hb)
        rw [r.captured_put_other hne, hnone b (List.mem_cons_of_mem _ hb)]
      simp only [Except.map]
      rw [ih hrest hnone', Record.path_put]
      refine and_congr_right fun _ => forall_congr' fun b => ?_
      by_cases hb : b = a
      · subst hb
        rw [if_neg hnew, if_pos List.mem_cons_self, hobtained, Record.captured_put_same,
          Except.ok.injEq, eq_comm]
      · simp only [List.mem_cons, hb, false_or, r.captured_put_other hb]

/-- A capture gives a record exactly if it obtains every checked attribute, and then the record has
what was obtained of these and nothing else. -/
theorem capture_eq_ok {checks : Checks} {rule : Option Rule} {path : NormalPath} {r : Record} :
    (reads.capture checks rule path).outcome = .ok r ↔ r.path = path ∧
      ∀ a, if shouldCheck checks rule a then reads.obtained checks.hashMode a = .ok (r.captured a)
        else r.captured a = none := by
  have hnodup : (Attribute.all.filter (shouldCheck checks rule)).Nodup :=
    List.Pairwise.filter _ (by decide)
  rw [capture, fillAll_eq_ok hnodup fun a _ => Record.captured_unknown path a]
  simp only [List.mem_filter, Attribute.mem_all, true_and, Record.captured_unknown]
  rfl

/-- Checking less records less, and otherwise the same. -/
theorem capture_mask {checks full : Checks} {rule : Option Rule} {path : NormalPath} {r : Record}
    (hmode : full.hashMode = checks.hashMode) (hall : ∀ a, shouldCheck full none a)
    (h : (reads.capture full none path).outcome = .ok r) :
    (reads.capture checks rule path).outcome = .ok (r.mask (shouldCheck checks rule)) := by
  obtain ⟨hpath, hcaptured⟩ := capture_eq_ok.1 h
  refine capture_eq_ok.2 ⟨(Record.path_mask _ r).trans hpath, fun a => ?_⟩
  have ha := hcaptured a
  rw [if_pos (hall a), hmode] at ha
  rw [Record.captured_mask]
  split
  · exact ha
  · rfl

end Reads

end FileCensus
