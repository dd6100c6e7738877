import FileCensus.Proofs.ExactReports

/-!
# Filtered traces

A policy is applied to two records before they are compared. It could as well be applied to what the
comparison found: the differences that it reports are those of the plain comparison in the attributes
that it checks. So a policy that checks more reports no less.
-/

namespace FileCensus

namespace Trace

/-- The trace of some differences, if there are any. -/
def of? (path leftLabel rightLabel : String) (differences : List Difference) : Option Trace :=
  if differences.isEmpty then none else some ⟨path, leftLabel, rightLabel, differences⟩

/-- The trace with its differences in some attributes only, if there are any. -/
def restrict? (keep : Attribute → Bool) (t : Trace) : Option Trace :=
  of? t.path t.leftLabel t.rightLabel (t.differences.filter fun d => keep d.subject)

/-- Everything that one trace says the other one says too, in the same words and order. -/
structure Within (t t' : Trace) : Prop where
  path : t.path = t'.path
  leftLabel : t.leftLabel = t'.leftLabel
  rightLabel : t.rightLabel = t'.rightLabel
  differences : t.differences.Sublist t'.differences

variable {keep : Attribute → Bool} {t t' : Trace}

theorem bind_restrict?_of? (path leftLabel rightLabel : String) (differences : List Difference) :
    (of? path leftLabel rightLabel differences).bind (restrict? keep) =
      of? path leftLabel rightLabel (differences.filter fun d => keep d.subject) := by
  cases differences <;> rfl

theorem within_of_restrict? (h : t.restrict? keep = some t') : t'.Within t := by
  rw [restrict?, of?] at h
  split at h
  · simp at h
  · rw [← Option.some.inj h]
    exact ⟨rfl, rfl, rfl, List.filter_sublist⟩

end Trace

namespace Record

variable {keep : Attribute → Bool} {l r : Record}

theorem compare_eq_of? (leftLabel : String) (l : Record) (rightLabel : String) (r : Record) :
    l.compare leftLabel rightLabel r =
      Trace.of? l.path.text leftLabel rightLabel (Attribute.all.filterMap (l.difference? r)) := rfl

theorem difference?_masked (a : Attribute) :
    (l.mask keep).difference? (r.mask keep) a =
      (l.difference? r a).filter fun d => keep d.subject := by
  rw [difference?, difference?, value_mask, value_mask]
  by_cases hvalue : l.value a = r.value a
  · simp [hvalue]
  · cases hkeep : keep a <;> simp [hvalue, hkeep, Option.filter]

/-- Masked records differ as the records themselves do in the attributes that are kept. -/
theorem differences_masked :
    Attribute.all.filterMap ((l.mask keep).difference? (r.mask keep)) =
      (Attribute.all.filterMap (l.difference? r)).filter fun d => keep d.subject := by
  rw [List.filter_filterMap]
  exact List.filterMap_congr fun a _ => difference?_masked a

end Record

namespace Policy

variable {weak strong : Policy}

theorem compare_eq_of? (policy : Policy) (leftLabel : String) (l : Record) (rightLabel : String)
    (r : Record) :
    policy.compare leftLabel l rightLabel r =
      Trace.of? l.path.text leftLabel rightLabel
        ((Attribute.all.filterMap (l.difference? r)).filter fun d =>
          policy.checksAt l.path.text d.subject) := by
  rw [compare, Record.compare_eq_of?, Record.path_mask, Record.differences_masked]

/-- What a policy reports is left of what a policy that checks no less reports. -/
theorem compare_of_more (hmore : ∀ path a, weak.checksAt path a → strong.checksAt path a)
    (leftLabel : String) (l : Record) (rightLabel : String) (r : Record) :
    weak.compare leftLabel l rightLabel r =
      (strong.compare leftLabel l rightLabel r).bind
        (Trace.restrict? (weak.checksAt l.path.text)) := by
  have hboth : ∀ d : Difference,
      (weak.checksAt l.path.text d.subject && strong.checksAt l.path.text d.subject) =
        weak.checksAt l.path.text d.subject := by
    intro d
    cases hweak : weak.checksAt l.path.text d.subject with
    | false => rfl
    | true => exact hmore _ _ hweak
  simp only [compare_eq_of?, Trace.bind_restrict?_of?, List.filter_filter, hboth]

theorem exists_compare_within (hmore : ∀ path a, weak.checksAt path a → strong.checksAt path a)
    {leftLabel rightLabel : String} {l r : Record} {t : Trace}
    (h : weak.compare leftLabel l rightLabel r = some t) :
    ∃ t', strong.compare leftLabel l rightLabel r = some t' ∧ t.Within t' := by
  rw [compare_of_more hmore] at h
  obtain ⟨t', hstrong, hrestrict⟩ := Option.bind_eq_some_iff.1 h
  exact ⟨t', hstrong, Trace.within_of_restrict? hrestrict⟩

/-- A policy reports of two records what the plain comparison does, without the differences in the
attributes that it does not check at the path. So everything that it reports, of records or of
snapshots, a policy that checks no less reports in the same words. -/
theorem compare_eq_restricted (policy : Policy) :
    (∀ leftLabel l rightLabel r, policy.compare leftLabel l rightLabel r =
      (Record.compare leftLabel l rightLabel r).bind
        (Trace.restrict? (shouldCheck policy.checks (policy.rules.ruleFor l.path.text)))) ∧
    ∀ strong : Policy, (∀ path a, policy.checksAt path a → strong.checksAt path a) →
      (∀ leftLabel l rightLabel r t, policy.compare leftLabel l rightLabel r = some t →
        ∃ t', strong.compare leftLabel l rightLabel r = some t' ∧ t.Within t') ∧
      ∀ l r : Snapshot, ∀ t ∈ (policy.compareSnapshots l r).traces,
        ∃ t' ∈ (strong.compareSnapshots l r).traces, t.Within t' := by
  constructor
  · intro leftLabel l rightLabel r
    rw [Record.compare_eq_of?, Trace.bind_restrict?_of?]
    exact policy.compare_eq_of? leftLabel l rightLabel r
  · intro strong hmore
    constructor
    · intro leftLabel l rightLabel r t h
      exact exists_compare_within hmore h
    · intro l r t ht
      obtain ⟨x, y, hx, hy, h⟩ := mem_traces.1 ht
      obtain ⟨t', ht', hwithin⟩ := exists_compare_within hmore h
      rw [hwithin.path] at hx hy
      exact ⟨t', mem_traces.2 ⟨x, y, hx, hy, ht'⟩, hwithin⟩

/-- Under the same rules, what is switched on is checked at no fewer paths. -/
theorem checksAt_of_enabled (hrules : weak.rules = strong.rules)
    (henabled : ∀ a, weak.checks.enabled.get a → strong.checks.enabled.get a) (path : String)
    (a : Attribute) (h : weak.checksAt path a) : strong.checksAt path a := by
  rw [checksAt, shouldCheck] at h ⊢
  rw [← hrules]
  cases hdecision : ((weak.rules.ruleFor path).map (·.get a)).getD .unspecified with
  | check => rfl
  | unspecified =>
    rw [hdecision] at h
    exact henabled a h
  | skip =>
    rw [hdecision] at h
    exact h

/-- No sizes of logs are checked, and times only if they are asked for. -/
def ofLogs (times : Bool) : Policy :=
  ⟨Checks.all.set .modified times, [⟨"*.log", Rule.empty.set .size .skip⟩]⟩

def oldLog : Record := ⟨.of "a.log", some 3, some 5, some "d", none⟩

def newLog : Record := ⟨.of "a.log", some 4, some 6, some "e", none⟩

/-- A log that has changed differs in its digest, and that is reported whether times are checked or
not. -/
theorem compare_eq_restricted_log :
    (ofLogs false).compare "old" oldLog "new" newLog =
      some ⟨"a.log", "old", "new", [⟨.md5, "d", "e"⟩]⟩ ∧
    (∀ path a, (ofLogs false).checksAt path a → (ofLogs true).checksAt path a) ∧
    ∃ t, (ofLogs true).compare "old" oldLog "new" newLog = some t ∧
      Trace.Within ⟨"a.log", "old", "new", [⟨.md5, "d", "e"⟩]⟩ t := by
  have hweak : (ofLogs false).compare "old" oldLog "new" newLog =
      some ⟨"a.log", "old", "new", [⟨.md5, "d", "e"⟩]⟩ := by decide +kernel
  have hmore : ∀ path a, (ofLogs false).checksAt path a → (ofLogs true).checksAt path a :=
    checksAt_of_enabled rfl fun a => by cases a <;> decide
  obtain ⟨-, hstrong⟩ := compare_eq_restricted (ofLogs false)
  exact ⟨hweak, hmore, (hstrong (ofLogs true) hmore).1 _ _ _ _ _ hweak⟩

end Policy

end FileCensus
