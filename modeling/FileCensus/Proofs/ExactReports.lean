import FileCensus.Proofs.CapturedValues
import Mathlib.Data.List.Sort

/-!
# Exact reports

What a report on two snapshots has to say under a policy is told path by path, from the captured
values alone. One report says it, and it is the one that the comparison gives. So each path of either
snapshot stands in one way: on one side only, traced, or equal.
-/

namespace FileCensus

/-- Two lists that ascend by a key are equal if they have the same members. -/
theorem eq_of_ascending {α : Type} (key : α → String) {xs ys : List α}
    (hxs : xs.Pairwise fun a b => key a < key b) (hys : ys.Pairwise fun a b => key a < key b)
    (h : ∀ a, a ∈ xs ↔ a ∈ ys) : xs = ys := by
  have : Std.Irrefl fun a b : α => key a < key b := ⟨fun a => String.lt_irrefl (key a)⟩
  have : Std.Antisymm fun a b : α => key a < key b :=
    ⟨fun a b hab hba => absurd (String.lt_trans hab hba) (String.lt_irrefl _)⟩
  exact hxs.eq_of_mem_iff hys h

namespace Snapshot

theorem mem_paths {s : Snapshot} {path : String} : path ∈ s.paths ↔ ∃ r, s.get? path = some r := by
  simp only [paths, List.mem_map, get?_eq_some]

theorem paths_ascending (s : Snapshot) : s.paths.Pairwise (· < ·) :=
  List.Pairwise.map _ (fun _ _ h => h) s.ascending

end Snapshot

/-- The difference of two records in an attribute, with the texts of both values. -/
def Record.differenceIn (l r : Record) (a : Attribute) : Difference :=
  ⟨a, (l.value a).getD absentText, (r.value a).getD absentText⟩

namespace Policy

/-- The attributes that the policy checks at a path and whose captured values are not the same. -/
def differing (policy : Policy) (path : String) (l r : Record) : List Attribute :=
  Attribute.all.filter fun a => policy.checksAt path a && decide (l.captured a ≠ r.captured a)

variable {policy : Policy}

theorem differing_ne_nil {path : String} {l r : Record} :
    policy.differing path l r ≠ [] ↔ ∃ a, policy.checksAt path a ∧ l.captured a ≠ r.captured a := by
  simp [differing, List.filter_eq_nil_iff]

theorem difference?_mask {keep : Attribute → Bool} {l r : Record} {a : Attribute} :
    (l.mask keep).difference? (r.mask keep) a =
      if keep a && decide (l.captured a ≠ r.captured a) then some (l.differenceIn r a) else none := by
  rw [Record.difference?, Record.value_mask, Record.value_mask]
  cases keep a with
  | false => rfl
  | true =>
    simp only [if_true, Bool.true_and, decide_eq_true_eq, ne_eq, ite_not, Record.value_eq_iff,
      Record.differenceIn]

/-- Two records give a trace of all attributes that count and differ, if there is one. -/
theorem compare_eq_some {l r : Record} {leftLabel rightLabel : String} {t : Trace} :
    policy.compare leftLabel l rightLabel r = some t ↔
      policy.differing l.path.text l r ≠ [] ∧
        t = ⟨l.path.text, leftLabel, rightLabel,
          (policy.differing l.path.text l r).map (l.differenceIn r)⟩ := by
  have hdifferences : Attribute.all.filterMap ((l.mask (policy.checksAt l.path.text)).difference?
      (r.mask (policy.checksAt l.path.text))) =
        (policy.differing l.path.text l r).map (l.differenceIn r) := by
    rw [differing, ← List.filterMap_eq_map, List.filterMap_filter]
    exact List.filterMap_congr fun a _ => difference?_mask
  simp only [compare, Record.compare, hdifferences, List.isEmpty_iff, List.map_eq_nil_iff,
    Record.path_mask, ne_eq]
  by_cases hnone : policy.differing l.path.text l r = []
  · simp only [hnone, if_true, reduceCtorEq, not_true, false_and]
  · simp only [hnone, if_false, Option.some.injEq, not_false_eq_true, true_and]
    exact eq_comm

theorem path_compare {l r : Record} {leftLabel rightLabel : String} {t : Trace}
    (h : policy.compare leftLabel l rightLabel r = some t) : t.path = l.path.text := by
  rw [(compare_eq_some.1 h).2]

theorem mem_traces {l r : Snapshot} {t : Trace} :
    t ∈ (policy.compareSnapshots l r).traces ↔ ∃ x y, l.get? t.path = some x ∧
      r.get? t.path = some y ∧ policy.compare l.name x r.name y = some t := by
  simp only [compareSnapshots, List.mem_filterMap, Option.bind_eq_some_iff]
  constructor
  · rintro ⟨x, hx, y, hy, ht⟩
    rw [path_compare ht]
    exact ⟨x, y, Snapshot.get?_eq_some.2 ⟨hx, rfl⟩, hy, ht⟩
  · rintro ⟨x, y, hx, hy, ht⟩
    rw [path_compare ht] at hy
    exact ⟨x, (Snapshot.get?_eq_some.1 hx).1, y, hy, ht⟩

theorem traces_ascending (l r : Snapshot) :
    (policy.compareSnapshots l r).traces.Pairwise fun s t => s.path < t.path := by
  refine List.Pairwise.filterMap _ ?_ l.ascending
  intro x x' hlt s hs t ht
  obtain ⟨y, -, hs⟩ := Option.bind_eq_some_iff.1 hs
  obtain ⟨y', -, ht⟩ := Option.bind_eq_some_iff.1 ht
  rw [path_compare hs, path_compare ht]
  exact hlt

end Policy

/-- What a report on two snapshots has to say under a policy. -/
structure Report.Exact (report : Report) (policy : Policy) (l r : Snapshot) : Prop where
  leftLabel : report.leftLabel = l.name
  rightLabel : report.rightLabel = r.name
  onlyInLeft_ascending : report.onlyInLeft.Pairwise (· < ·)
  mem_onlyInLeft : ∀ path, path ∈ report.onlyInLeft ↔ path ∈ l.paths ∧ path ∉ r.paths
  onlyInRight_ascending : report.onlyInRight.Pairwise (· < ·)
  mem_onlyInRight : ∀ path, path ∈ report.onlyInRight ↔ path ∈ r.paths ∧ path ∉ l.paths
  traces_ascending : report.traces.Pairwise fun s t => s.path < t.path
  traced : ∀ path, path ∈ report.traces.map Trace.path ↔ ∃ x y, l.get? path = some x ∧
    r.get? path = some y ∧ ∃ a, policy.checksAt path a ∧ x.captured a ≠ y.captured a
  trace_eq : ∀ t ∈ report.traces, ∀ x y, l.get? t.path = some x → r.get? t.path = some y →
    t.leftLabel = l.name ∧ t.rightLabel = r.name ∧
      t.differences = (policy.differing t.path x y).map (x.differenceIn y)

namespace Report.Exact

variable {policy : Policy} {l r : Snapshot}

theorem traces_subset {a b : Report} (ha : a.Exact policy l r) (hb : b.Exact policy l r)
    {t : Trace} (ht : t ∈ a.traces) : t ∈ b.traces := by
  have hpath := (ha.traced t.path).1 (List.mem_map_of_mem ht)
  obtain ⟨t', ht', heq⟩ := List.mem_map.1 ((hb.traced t.path).2 hpath)
  obtain ⟨x, y, hx, hy, -⟩ := hpath
  obtain ⟨hleft, hright, hdifferences⟩ := ha.trace_eq t ht x y hx hy
  rw [← heq] at hx hy
  obtain ⟨hleft', hright', hdifferences'⟩ := hb.trace_eq t' ht' x y hx hy
  rw [heq] at hdifferences'
  have hsame : t = t' := by
    cases t
    cases t'
    simp_all
  rwa [hsame]

/-- There is one exact report. -/
theorem unique {a b : Report} (ha : a.Exact policy l r) (hb : b.Exact policy l r) : a = b := by
  have hleft : a.onlyInLeft = b.onlyInLeft :=
    eq_of_ascending id ha.onlyInLeft_ascending hb.onlyInLeft_ascending fun path => by
      rw [ha.mem_onlyInLeft, hb.mem_onlyInLeft]
  have hright : a.onlyInRight = b.onlyInRight :=
    eq_of_ascending id ha.onlyInRight_ascending hb.onlyInRight_ascending fun path => by
      rw [ha.mem_onlyInRight, hb.mem_onlyInRight]
  have htraces : a.traces = b.traces :=
    eq_of_ascending Trace.path ha.traces_ascending hb.traces_ascending fun t =>
      ⟨ha.traces_subset hb, hb.traces_subset ha⟩
  have hleftLabel : a.leftLabel = b.leftLabel := ha.leftLabel.trans hb.leftLabel.symm
  have hrightLabel : a.rightLabel = b.rightLabel := ha.rightLabel.trans hb.rightLabel.symm
  cases a
  cases b
  simp_all

end Report.Exact

namespace Policy

theorem exact_compareSnapshots (policy : Policy) (l r : Snapshot) :
    (policy.compareSnapshots l r).Exact policy l r where
  leftLabel := rfl
  rightLabel := rfl
  onlyInLeft_ascending := l.paths_ascending.filter _
  mem_onlyInLeft path := by
    simp [compareSnapshots, Snapshot.mem_paths, Option.eq_none_iff_forall_ne_some]
  onlyInRight_ascending := r.paths_ascending.filter _
  mem_onlyInRight path := by
    simp [compareSnapshots, Snapshot.mem_paths, Option.eq_none_iff_forall_ne_some]
  traces_ascending := policy.traces_ascending l r
  traced path := by
    simp only [List.mem_map, mem_traces, compare_eq_some, differing_ne_nil]
    constructor
    · rintro ⟨t, ⟨x, y, hx, hy, hne, -⟩, rfl⟩
      rw [(Snapshot.get?_eq_some.1 hx).2] at hne
      exact ⟨x, y, hx, hy, hne⟩
    · rintro ⟨x, y, hx, hy, hne⟩
      obtain ⟨-, rfl⟩ := Snapshot.get?_eq_some.1 hx
      exact ⟨_, ⟨x, y, hx, hy, hne, rfl⟩, rfl⟩
  trace_eq t ht x y hx hy := by
    obtain ⟨x', y', hx', hy', h⟩ := mem_traces.1 ht
    obtain rfl := Option.some.inj (hx.symm.trans hx')
    obtain rfl := Option.some.inj (hy.symm.trans hy')
    have hpath := path_compare h
    rw [(compare_eq_some.1 h).2, ← hpath]
    exact ⟨rfl, rfl, rfl⟩

/-- How a path of either of two snapshots stands in a comparison. -/
inductive Standing where
  | onlyLeft
  | onlyRight
  | traced
  | equal

def Stands (policy : Policy) (l r : Snapshot) (path : String) : Standing → Prop
  | .onlyLeft => path ∈ (policy.compareSnapshots l r).onlyInLeft
  | .onlyRight => path ∈ (policy.compareSnapshots l r).onlyInRight
  | .traced => path ∈ (policy.compareSnapshots l r).traces.map Trace.path
  | .equal => ∃ x y, l.get? path = some x ∧ r.get? path = some y ∧
      ∀ a, policy.checksAt path a → x.captured a = y.captured a

/-- How a path stands, from the records that the two sides have of it. -/
def standing? (policy : Policy) (path : String) : Option Record → Option Record → Option Standing
  | none, none => none
  | some _, none => some .onlyLeft
  | none, some _ => some .onlyRight
  | some x, some y => if policy.differing path x y = [] then some .equal else some .traced

theorem stands_iff {policy : Policy} {l r : Snapshot} {path : String} {s : Standing} :
    policy.Stands l r path s ↔ policy.standing? path (l.get? path) (r.get? path) = some s := by
  have hexact := policy.exact_compareSnapshots l r
  have hequal : ∀ x y, policy.differing path x y = [] ↔
      ∀ a, policy.checksAt path a → x.captured a = y.captured a := by
    intro x y
    rw [← not_iff_not, ← ne_eq, differing_ne_nil]
    simp
  cases s with
  | onlyLeft =>
    rw [Stands, hexact.mem_onlyInLeft, Snapshot.mem_paths, Snapshot.mem_paths]
    cases l.get? path <;> cases r.get? path <;> simp [standing?]
    split <;> simp
  | onlyRight =>
    rw [Stands, hexact.mem_onlyInRight, Snapshot.mem_paths, Snapshot.mem_paths]
    cases l.get? path <;> cases r.get? path <;> simp [standing?]
    split <;> simp
  | traced =>
    rw [Stands, hexact.traced]
    cases l.get? path <;> cases r.get? path <;> simp [standing?, differing_ne_nil]
  | equal =>
    rw [Stands]
    cases l.get? path <;> cases r.get? path <;> simp [standing?, hequal]

theorem isSome_standing? {policy : Policy} {path : String} {x y : Option Record} :
    (policy.standing? path x y).isSome ↔ x ≠ none ∨ y ≠ none := by
  cases x <;> cases y <;> simp [standing?]
  split <;> simp

/-- The report of a comparison is the exact one. Every path of the two snapshots, and no other, stands
in one way, and a path that is traced has its own trace. -/
theorem exact_report (policy : Policy) (l r : Snapshot) :
    (∀ report : Report, report.Exact policy l r ↔ report = policy.compareSnapshots l r) ∧
    (∀ path, (path ∈ l.paths ∨ path ∈ r.paths) ↔ ∃! s, policy.Stands l r path s) ∧
    (∀ path t, (policy.compareSnapshots l r).traceFor? path = some t ↔
      t ∈ (policy.compareSnapshots l r).traces ∧ t.path = path) := by
  have hexact := policy.exact_compareSnapshots l r
  refine ⟨?_, ?_, ?_⟩
  · intro report
    constructor
    · intro h
      exact h.unique hexact
    · rintro rfl
      exact hexact
  · intro path
    -- A path has no two standings because what the two sides have of it decides its standing.
    have hunique : ∀ o : Option Standing, (∃! s, o = some s) ↔ o.isSome := by
      intro o
      cases o <;> simp
    simp only [stands_iff, hunique, isSome_standing?, Snapshot.mem_paths, Option.ne_none_iff_exists']
  · intro path t
    exact find?_eq_some_of_ascending hexact.traces_ascending

end Policy

end FileCensus
