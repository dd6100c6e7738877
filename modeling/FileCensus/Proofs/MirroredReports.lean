import FileCensus.Proofs.MaskedSnapshots

/-!
# Mirrored reports

Under every policy, to be reported as equal is an equivalence of snapshots that does not look at their
names, and when everything is checked it is equality of the files. Exchanging the two sides of a
comparison exchanges them in the report, and changes nothing else.
-/

namespace FileCensus

def Difference.mirror (d : Difference) : Difference := ⟨d.subject, d.right, d.left⟩

def Trace.mirror (t : Trace) : Trace :=
  ⟨t.path, t.rightLabel, t.leftLabel, t.differences.map Difference.mirror⟩

/-- The report with its two sides exchanged. -/
def Report.mirror (r : Report) : Report :=
  ⟨r.rightLabel, r.leftLabel, r.traces.map Trace.mirror, r.onlyInRight, r.onlyInLeft⟩

theorem Policy.differing_comm (policy : Policy) (path : String) (l r : Record) :
    policy.differing path l r = policy.differing path r l := by
  simp only [differing, ne_comm]

/-- The mirror image of what is to be reported is what the exchanged comparison has to report. -/
theorem Report.Exact.mirror {report : Report} {policy : Policy} {l r : Snapshot}
    (h : report.Exact policy l r) : report.mirror.Exact policy r l where
  leftLabel := h.rightLabel
  rightLabel := h.leftLabel
  onlyInLeft_ascending := h.onlyInRight_ascending
  mem_onlyInLeft := h.mem_onlyInRight
  onlyInRight_ascending := h.onlyInLeft_ascending
  mem_onlyInRight := h.mem_onlyInLeft
  traces_ascending := h.traces_ascending.map _ fun _ _ hlt => hlt
  traced path := by
    have hpaths : report.mirror.traces.map Trace.path = report.traces.map Trace.path := by
      rw [Report.mirror, List.map_map]
      rfl
    rw [hpaths, h.traced]
    constructor
    · rintro ⟨x, y, hx, hy, a, ha, hne⟩
      exact ⟨y, x, hy, hx, a, ha, hne.symm⟩
    · rintro ⟨y, x, hy, hx, a, ha, hne⟩
      exact ⟨x, y, hx, hy, a, ha, hne.symm⟩
  trace_eq t ht y x hy hx := by
    obtain ⟨s, hs, rfl⟩ := List.mem_map.1 ht
    obtain ⟨hleft, hright, hdifferences⟩ := h.trace_eq s hs x y hx hy
    refine ⟨hright, hleft, ?_⟩
    rw [Trace.mirror, hdifferences, List.map_map, policy.differing_comm]
    rfl

/-- Equality under a policy is an equivalence whatever the names are, and equality of the files if
there is no policy; the exchanged comparison gives the mirror image of the report. -/
theorem Policy.equivalence_isEqual (policy : Policy) :
    (Equivalence fun l r : Snapshot => (policy.compareSnapshots l r).isEqual) ∧
    (∀ (l r : Snapshot) (m n : String), (policy.compareSnapshots (l.rename m) (r.rename n)).isEqual =
      (policy.compareSnapshots l r).isEqual) ∧
    (∀ l r : Snapshot, (l.compare r).isEqual ↔ l.files = r.files) ∧
    ∀ l r, policy.compareSnapshots r l = (policy.compareSnapshots l r).mirror := by
  refine ⟨⟨?_, ?_, ?_⟩, ?_, ?_, ?_⟩
  · intro s
    exact isEqual_iff_masked.2 rfl
  · intro l r h
    exact isEqual_iff_masked.2 (isEqual_iff_masked.1 h).symm
  · intro l m r hlm hmr
    exact isEqual_iff_masked.2 ((isEqual_iff_masked.1 hlm).trans (isEqual_iff_masked.1 hmr))
  · intro l r m n
    rw [Bool.eq_iff_iff, isEqual_iff_masked, isEqual_iff_masked]
    rfl
  · intro l r
    rw [Snapshot.compare, isEqual_iff_masked, Snapshot.files_masked_everything,
      Snapshot.files_masked_everything]
  · intro l r
    exact (policy.exact_compareSnapshots r l).unique (policy.exact_compareSnapshots l r).mirror

end FileCensus
