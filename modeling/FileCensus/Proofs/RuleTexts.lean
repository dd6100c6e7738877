import FileCensus.Policy.RuleSet
import Mathlib.Data.List.TakeWhile

/-!
# Rule texts

Two texts of rules that a comma joins are read one after the other: the first fault is that of the
first text that has one, and without faults the second rule is laid over the first. The text of an
entry of a rule set is a pattern and a rule on the two sides of its last equals sign.
-/

namespace FileCensus

namespace Rule

@[simp] theorem get_override (first second : Rule) (a : Attribute) :
    (first.override second).get a =
      if second.get a = .unspecified then first.get a else second.get a :=
  ByAttribute.get_ofFn _ a

theorem override_empty (rule : Rule) : rule.override empty = rule := by
  apply ByAttribute.ext_get
  intro a
  rw [get_override, empty, ByAttribute.get_const, if_pos rfl]

theorem set_override {d : Decision} (hd : d ≠ .unspecified) (first second : Rule) (a : Attribute) :
    (first.override second).set a d = first.override (second.set a d) := by
  apply ByAttribute.ext_get
  intro b
  rw [get_override, ByAttribute.get_set, ByAttribute.get_set, get_override]
  by_cases hb : b = a
  · simp only [if_pos hb, if_neg hd]
  · simp only [if_neg hb]

/-- A token always decides something. -/
theorem readToken_decides {token : List Char} {a : Attribute} {d : Decision}
    (h : readToken token = .ok (a, d)) : d ≠ .unspecified := by
  have hdecide : ∀ {decision name}, readToken.decide decision name = .ok (a, d) → d = decision := by
    intro decision name h
    rw [readToken.decide] at h
    split at h
    · exact (congrArg Prod.snd (Except.ok.inj h)).symm
    · exact nomatch h
  unfold readToken at h
  split at h
  · exact hdecide h ▸ Decision.noConfusion
  · exact hdecide h ▸ Decision.noConfusion
  · exact nomatch h

theorem tokens_append_cons (s t : List Char) : tokens (s ++ ',' :: t) = tokens s ++ tokens t := by
  rw [tokens, cutAt_append_cons, List.map_append, List.filter_append, ← tokens, ← tokens]

theorem applyTokens_append (rule : Rule) (s t : List (List Char)) :
    applyTokens rule (s ++ t) = (applyTokens rule s).bind fun rule => applyTokens rule t := by
  induction s generalizing rule with
  | nil => rfl
  | cons token s ih =>
    rw [List.cons_append, applyTokens, applyTokens]
    cases readToken token with
    | error fault => rfl
    | ok decided => exact ih _

/-- What stands in front of a text does not change what the text decides. -/
theorem applyTokens_override (first second : Rule) (s : List (List Char)) :
    applyTokens (first.override second) s = (applyTokens second s).map first.override := by
  induction s generalizing second with
  | nil => rfl
  | cons token s ih =>
    rw [applyTokens, applyTokens]
    cases hread : readToken token with
    | error fault => rfl
    | ok decided =>
      obtain ⟨a, d⟩ := decided
      simp only [set_override (readToken_decides hread), ih]

theorem parse_append (s t : String) :
    parse (s ++ "," ++ t) = (parse s).bind fun first => (parse t).map first.override := by
  have htokens : tokens (s ++ "," ++ t).toList = tokens s.toList ++ tokens t.toList := by
    rw [← tokens_append_cons]
    simp
  rw [parse, htokens, applyTokens_append, ← parse]
  congr 1
  funext first
  rw [parse, ← applyTokens_override, override_empty]

end Rule

section CutAtLast

variable {α : Type} [DecidableEq α] {sep : α}

theorem ne_of_mem_reverse {s : List α} (h : sep ∉ s) : ∀ x ∈ s.reverse, decide (x ≠ sep) = true := by
  intro x hx
  exact decide_eq_true fun he => h (he ▸ List.mem_reverse.1 hx)

theorem cutAtLast_append_cons {s : List α} (h : sep ∉ s) (front : List α) :
    cutAtLast sep (front ++ sep :: s) = some (front, s) := by
  have hs := ne_of_mem_reverse h
  have hreverse : (front ++ sep :: s).reverse = s.reverse ++ sep :: front.reverse := by simp
  rw [cutAtLast, hreverse, List.dropWhile_append_of_pos hs, List.takeWhile_append_of_pos hs]
  simp

theorem cutAtLast_of_not_mem {s : List α} (h : sep ∉ s) : cutAtLast sep s = none := by
  rw [cutAtLast, List.dropWhile_eq_nil_iff.2 (ne_of_mem_reverse h)]

omit [DecidableEq α] in
theorem exists_last_sep {s : List α} (h : sep ∈ s) :
    ∃ front back, s = front ++ sep :: back ∧ sep ∉ back := by
  obtain ⟨back, front, hs, hback⟩ := List.eq_append_cons_of_mem (List.mem_reverse.2 h)
  refine ⟨front.reverse, back.reverse, ?_, fun hmem => hback (List.mem_reverse.1 hmem)⟩
  rw [← List.reverse_reverse s, hs]
  simp

end CutAtLast

namespace PathRule

theorem parse_pair {pattern spec : String} (hpattern : pattern ≠ "") (hspec : '=' ∉ spec.toList) :
    parse (pattern ++ "=" ++ spec) = (Rule.parse spec).map fun rule => ⟨pattern, rule⟩ := by
  have htext : (pattern ++ "=" ++ spec).toList = pattern.toList ++ '=' :: spec.toList := by simp
  have hne : pattern.toList.isEmpty = false := by simpa using hpattern
  rw [parse, htext, cutAtLast_append_cons hspec]
  simp [hne]

theorem parse_without_pattern {spec : String} (hspec : '=' ∉ spec.toList) :
    parse ("=" ++ spec) = .error (.emptyPattern ("=" ++ spec)) := by
  have htext : ("=" ++ spec).toList = [] ++ '=' :: spec.toList := by simp
  rw [parse, htext, cutAtLast_append_cons hspec]
  rfl

theorem parse_not_pair {text : String} (h : '=' ∉ text.toList) :
    parse text = .error (.notPair text) := by
  rw [parse, cutAtLast_of_not_mem h]

/-- A text has no equals sign, or is cut at its last one. -/
theorem text_cases (text : String) : '=' ∉ text.toList ∨
    ∃ pattern spec, '=' ∉ spec.toList ∧ text = pattern ++ "=" ++ spec := by
  by_cases h : '=' ∈ text.toList
  · obtain ⟨front, back, htext, hback⟩ := exists_last_sep h
    refine .inr ⟨String.ofList front, String.ofList back, by simpa using hback, ?_⟩
    apply String.toList_inj.1
    rw [htext]
    simp
  · exact .inl h

end PathRule

namespace Rule

/-- Texts that a comma joins give the second rule laid over the first, or the fault of the first text
that has one. The text of an entry gives the pattern before its last equals sign and the rule after it,
or the fault of this rule; a text without such a pattern is refused. -/
theorem parse_joined :
    (∀ s t : String, parse (s ++ "," ++ t) =
      match parse s, parse t with
      | .error fault, _ => .error fault
      | .ok _, .error fault => .error fault
      | .ok first, .ok second => .ok (first.override second)) ∧
    (∀ (first second : Rule) (a : Attribute), (first.override second).get a =
      if second.get a = .unspecified then first.get a else second.get a) ∧
    (∀ pattern spec : String, pattern ≠ "" → '=' ∉ spec.toList →
      PathRule.parse (pattern ++ "=" ++ spec) =
        (parse spec).map fun rule => ⟨pattern, rule⟩) ∧
    ∀ text : String,
      (∃ pattern spec, pattern ≠ "" ∧ '=' ∉ spec.toList ∧ text = pattern ++ "=" ++ spec) ∨
      ('=' ∉ text.toList ∧ PathRule.parse text = .error (.notPair text)) ∨
      ∃ spec, '=' ∉ spec.toList ∧ text = "=" ++ spec ∧
        PathRule.parse text = .error (.emptyPattern text) := by
  refine ⟨fun s t => ?_, get_override, fun _ _ => PathRule.parse_pair, fun text => ?_⟩
  · rw [parse_append]
    cases parse s with
    | error fault => rfl
    | ok first => cases parse t <;> rfl
  · rcases PathRule.text_cases text with h | ⟨pattern, spec, hspec, rfl⟩
    · exact .inr (.inl ⟨h, PathRule.parse_not_pair h⟩)
    · by_cases hpattern : pattern = ""
      · subst hpattern
        rw [String.empty_append]
        exact .inr (.inr ⟨spec, hspec, rfl, PathRule.parse_without_pattern hspec⟩)
      · exact .inl ⟨pattern, spec, hpattern, hspec, rfl⟩

/-- A later mention counts under either name of an attribute, and a pattern may hold an equals sign. -/
theorem parse_joined_again :
    "a=b" ≠ "" ∧ '=' ∉ ("+md5" ++ "," ++ " -HASH").toList ∧
    PathRule.parse ("a=b" ++ "=" ++ ("+md5" ++ "," ++ " -HASH")) =
      .ok ⟨"a=b", empty.set .md5 .skip⟩ := by
  obtain ⟨hjoined, -, hpair, -⟩ := parse_joined
  have hfirst : parse "+md5" = .ok (empty.set .md5 .check) := by decide +kernel
  have hsecond : parse " -HASH" = .ok (empty.set .md5 .skip) := by decide +kernel
  have hspec := hjoined "+md5" " -HASH"
  simp only [hfirst, hsecond] at hspec
  refine ⟨by decide, by decide, (hpair _ _ (by decide) (by decide)).trans ?_⟩
  rw [hspec]
  decide

end Rule

end FileCensus
