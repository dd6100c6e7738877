import FileCensus.CommandLine
import FileCensus.Proofs.RuleTexts

/-!
# Which rule counts

The rule of a path is that of the first entry that counts for it. So a rule set that is continued by
another has the last word only where the first has none, and entries that decide nothing might as well
not be there. The rules of a command line are those of its texts in their order. None of this depends
on what it means that a pattern matches.
-/

namespace FileCensus

/-- What it means that a pattern matches a text. -/
abbrev Matcher := String → String → Bool

/-- The entry decides something, and its pattern matches the path or the last of the texts between its
slashes. -/
structure PathRule.Counts (isMatch : Matcher) (entry : PathRule) (path : String) : Prop where
  decides : ∃ a, entry.rule.get a ≠ .unspecified
  covers : isMatch entry.pattern path ∨
    ∃ name, (cutAt '/' path.toList).getLast? = some name ∧
      isMatch entry.pattern (String.ofList name)

def PathRule.countsBy (isMatch : Matcher) (entry : PathRule) (path : String) : Bool :=
  !entry.rule.isEmpty &&
    (isMatch entry.pattern path || isMatch entry.pattern (lastComponent path))

/-- The text is that of an entry that counts for the path and has the rule. -/
def PathRule.TextCounts (isMatch : Matcher) (text path : String) (rule : Rule) : Prop :=
  ∃ pattern spec, pattern ≠ "" ∧ '=' ∉ spec.toList ∧ text = pattern ++ "=" ++ spec ∧
    Rule.parse spec = .ok rule ∧ Counts isMatch ⟨pattern, rule⟩ path

namespace RuleSet

/-- The rule of a path under any meaning of patterns. -/
def ruleBy (isMatch : Matcher) (rules : RuleSet) (path : String) : Option Rule :=
  (rules.find? (·.countsBy isMatch path)).map PathRule.rule

theorem ruleFor_eq_ruleBy : ruleFor = ruleBy Glob.isMatch := rfl

/-- The first of the texts that does not parse has this fault. -/
def FirstRefused (texts : List String) (fault : RuleFault) : Prop :=
  ∃ before text after, texts = before ++ text :: after ∧
    (∀ t ∈ before, ∃ entry, PathRule.parse t = .ok entry) ∧ PathRule.parse text = .error fault

/-- The first of the texts that counts for the path has this rule. -/
def FirstCounting (isMatch : Matcher) (texts : List String) (path : String) (rule : Rule) : Prop :=
  ∃ before text after, texts = before ++ text :: after ∧
    PathRule.TextCounts isMatch text path rule ∧
    ∀ t ∈ before, ∀ other, ¬PathRule.TextCounts isMatch t path other

end RuleSet

theorem lastComponent_eq (path : String) :
    (cutAt '/' path.toList).getLast? = some (lastComponent path).toList := by
  rw [lastComponent, String.toList_ofList]
  by_cases h : '/' ∈ path.toList
  · obtain ⟨front, back, hpath, hback⟩ := exists_last_sep h
    have hreverse : (front ++ '/' :: back).reverse = back.reverse ++ '/' :: front.reverse := by simp
    rw [hpath, cutAt_append_cons, cutAt_of_not_mem hback, List.getLast?_concat, hreverse,
      List.takeWhile_append_of_pos (ne_of_mem_reverse hback)]
    simp
  · rw [cutAt_of_not_mem h, List.takeWhile_eq_self_iff.2 (ne_of_mem_reverse h)]
    simp

variable {isMatch : Matcher} {path : String} {rule : Rule}

namespace PathRule

variable {entry : PathRule} {text : String}

theorem counts_iff : entry.Counts isMatch path ↔ entry.countsBy isMatch path := by
  have hdecides : (∃ a, entry.rule.get a ≠ .unspecified) ↔ entry.rule.isEmpty = false := by
    simp [Rule.isEmpty]
  have hlast : (∃ name, (cutAt '/' path.toList).getLast? = some name ∧
      isMatch entry.pattern (String.ofList name)) ↔
        isMatch entry.pattern (lastComponent path) = true := by
    simp [lastComponent_eq]
  rw [countsBy, Bool.and_eq_true, Bool.or_eq_true, Bool.not_eq_true', ← hdecides, ← hlast]
  exact ⟨fun h => ⟨h.decides, h.covers⟩, fun h => ⟨h.1, h.2⟩⟩

/-- An entry is read from one text only. -/
theorem textCounts_iff (h : parse text = .ok entry) :
    TextCounts isMatch text path rule ↔ entry.Counts isMatch path ∧ entry.rule = rule := by
  constructor
  · rintro ⟨pattern, spec, hpattern, hspec, rfl, hrule, hcounts⟩
    rw [parse_pair hpattern hspec, hrule] at h
    obtain rfl := Except.ok.inj h
    exact ⟨hcounts, rfl⟩
  · rintro ⟨hcounts, rfl⟩
    rcases text_cases text with hnone | ⟨pattern, spec, hspec, rfl⟩
    · rw [parse_not_pair hnone] at h
      exact nomatch h
    · by_cases hpattern : pattern = ""
      · rw [hpattern, String.empty_append, parse_without_pattern hspec] at h
        exact nomatch h
      · rw [parse_pair hpattern hspec] at h
        cases hrule : Rule.parse spec with
        | error fault =>
          rw [hrule] at h
          exact nomatch h
        | ok rule =>
          rw [hrule] at h
          obtain rfl := Except.ok.inj h
          exact ⟨pattern, spec, hpattern, hspec, rfl, hrule, hcounts⟩

end PathRule

namespace RuleSet

variable {texts : List String} {rules : RuleSet} {fault : RuleFault}

theorem ruleBy_append (isMatch : Matcher) (first second : RuleSet) (path : String) :
    ruleBy isMatch (first ++ second) path =
      (ruleBy isMatch first path).or (ruleBy isMatch second path) := by
  rw [ruleBy, List.find?_append, Option.map_or]
  rfl

theorem ruleBy_decided (isMatch : Matcher) (rules : RuleSet) (path : String) :
    ruleBy isMatch (rules.filter fun entry => !entry.rule.isEmpty) path =
      ruleBy isMatch rules path := by
  rw [ruleBy, ruleBy, List.find?_filter]
  congr 2
  funext entry
  cases hempty : entry.rule.isEmpty <;> simp [PathRule.countsBy, hempty]

theorem ruleBy_cons_of_counts {entry : PathRule} (h : entry.Counts isMatch path) :
    ruleBy isMatch (entry :: rules) path = some entry.rule := by
  rw [ruleBy, List.find?_cons, PathRule.counts_iff.1 h]
  rfl

theorem ruleBy_cons_of_not_counts {entry : PathRule} (h : ¬entry.Counts isMatch path) :
    ruleBy isMatch (entry :: rules) path = ruleBy isMatch rules path := by
  rw [ruleBy, List.find?_cons, Bool.eq_false_iff.2 (mt PathRule.counts_iff.2 h)]
  rfl

/-! ### The texts of a command line -/

theorem firstCounting_cons {text : String} : FirstCounting isMatch (text :: texts) path rule ↔
    PathRule.TextCounts isMatch text path rule ∨
      (∀ other, ¬PathRule.TextCounts isMatch text path other) ∧
        FirstCounting isMatch texts path rule := by
  constructor
  · rintro ⟨before, t, after, htexts, hcounts, hbefore⟩
    cases before with
    | nil =>
      obtain ⟨rfl, -⟩ := List.cons.inj htexts
      exact .inl hcounts
    | cons u before =>
      obtain ⟨rfl, hrest⟩ := List.cons.inj htexts
      exact .inr ⟨hbefore _ List.mem_cons_self, before, t, after, hrest, hcounts,
        fun v hv => hbefore v (List.mem_cons_of_mem _ hv)⟩
  · rintro (hcounts | ⟨hnone, before, t, after, rfl, hcounts, hbefore⟩)
    · exact ⟨[], text, texts, rfl, hcounts, fun _ h => absurd h List.not_mem_nil⟩
    · exact ⟨text :: before, t, after, rfl, hcounts, List.forall_mem_cons.2 ⟨hnone, hbefore⟩⟩

/-- Either every text parses, and the rule of a path is that of the first text that counts for it, or
the first text that does not parse gives the fault. -/
theorem parse_cases (texts : List String) :
    (∃ fault, FirstRefused texts fault ∧ parse texts = .error fault) ∨
    (∀ t ∈ texts, ∃ entry, PathRule.parse t = .ok entry) ∧ ∃ rules, parse texts = .ok rules ∧
      ∀ isMatch path rule,
        ruleBy isMatch rules path = some rule ↔ FirstCounting isMatch texts path rule := by
  induction texts with
  | nil =>
    refine .inr ⟨fun _ h => absurd h List.not_mem_nil, [], rfl, fun isMatch path rule => ?_⟩
    constructor
    · exact fun h => nomatch h
    · rintro ⟨before, text, after, htexts, -⟩
      simp at htexts
  | cons text texts ih =>
    rw [parse]
    cases hentry : PathRule.parse text with
    | error fault =>
      exact .inl ⟨fault, ⟨[], text, texts, rfl, fun _ h => absurd h List.not_mem_nil, hentry⟩, rfl⟩
    | ok entry =>
      rcases ih with ⟨fault, ⟨before, t, after, rfl, hbefore, hfault⟩, hparse⟩ |
        ⟨hall, rules, hparse, hrules⟩
      · refine .inl ⟨fault, ⟨text :: before, t, after, rfl, ?_, hfault⟩, by rw [hparse]; rfl⟩
        exact List.forall_mem_cons.2 ⟨⟨entry, hentry⟩, hbefore⟩
      · refine .inr ⟨List.forall_mem_cons.2 ⟨⟨entry, hentry⟩, hall⟩, entry :: rules,
          by rw [hparse]; rfl, fun isMatch path rule => ?_⟩
        rw [firstCounting_cons]
        simp only [PathRule.textCounts_iff hentry]
        by_cases hcounts : entry.Counts isMatch path
        · simp [ruleBy_cons_of_counts hcounts, hcounts]
        · simp [ruleBy_cons_of_not_counts hcounts, hcounts, hrules]

/-- For any meaning of patterns: a rule set continued by another gives its own rule where it has one;
two rule sets that differ only in entries which decide nothing give the same rules; and the settings
of a command line have the fault of the first text that does not parse, or else give each path the
rule of the first text that counts for it. -/
theorem ruleBy_precedence :
    ruleFor = ruleBy Glob.isMatch ∧
    ∀ isMatch : Matcher,
      (∀ (first second : RuleSet) (path : String), ruleBy isMatch (first ++ second) path =
        (ruleBy isMatch first path).or (ruleBy isMatch second path)) ∧
      (∀ rules rules' : RuleSet,
        rules.filter (fun entry => !entry.rule.isEmpty) =
            rules'.filter (fun entry => !entry.rule.isEmpty) →
          ∀ path, ruleBy isMatch rules path = ruleBy isMatch rules' path) ∧
      ∀ (o : CheckOptions) (target : Bytes),
        (∃ fault, FirstRefused o.rules fault ∧ o.settings target = .error (.rule fault)) ∨
        (∀ t ∈ o.rules, ∃ entry, PathRule.parse t = .ok entry) ∧
          ∃ settings, o.settings target = .ok settings ∧
            ∀ path rule, ruleBy isMatch settings.policy.rules path = some rule ↔
              FirstCounting isMatch o.rules path rule := by
  refine ⟨ruleFor_eq_ruleBy, fun isMatch => ⟨ruleBy_append isMatch, fun rules rules' h path => ?_,
    fun o target => ?_⟩⟩
  · rw [← ruleBy_decided, h, ruleBy_decided]
  · rcases parse_cases o.rules with ⟨fault, hfirst, hparse⟩ | ⟨hall, rules, hparse, hrules⟩
    · exact .inl ⟨fault, hfirst, by rw [CheckOptions.settings, hparse]⟩
    · refine .inr ⟨hall, ⟨target, none, ⟨o.checks, rules⟩, o.ignorePatterns, o.includePatterns,
        o.respectsIgnoreFiles, o.threads, o.onFailure⟩, ?_, hrules isMatch⟩
      rw [CheckOptions.settings, hparse]

def checkedDigest : Rule := Rule.empty.set .md5 .check

/-- An entry that decides nothing does not stand in the way of a later one. -/
theorem ruleFor_behind_empty :
    let rules : RuleSet := [⟨"*.log", .empty⟩, ⟨"app.log", checkedDigest⟩]
    let decided : RuleSet := [⟨"app.log", checkedDigest⟩]
    rules.filter (fun entry => !entry.rule.isEmpty) =
        decided.filter (fun entry => !entry.rule.isEmpty) ∧
      rules.ruleFor "var/app.log" = some checkedDigest := by
  intro rules decided
  obtain ⟨hruleFor, hlaws⟩ := ruleBy_precedence
  have hsame := (hlaws Glob.isMatch).2.1 rules decided rfl "var/app.log"
  rw [hruleFor]
  exact ⟨rfl, hsame.trans (by decide +kernel)⟩

end RuleSet

end FileCensus
