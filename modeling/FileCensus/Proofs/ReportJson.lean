import FileCensus.Proofs.PrintedJson
import FileCensus.Report.Json

/-!
# Reports read back

The JSON text of a report stands for exactly that report: each member is printed under the name by
which it is read, so a difference, a trace and a report are read back member by member.
-/

namespace FileCensus

open Json

namespace Difference

theorem takes_subject (a : Attribute) : Takes readSubject (string a.name) a where
  opens := (takes_string a.name).opens
  takes blank rest hblank := by
    have htext : string a.name ++ rest =
        '"' :: (a.name.toList.flatMap escapeChar ++ '"' :: rest) := by
      simp [string]
    have hname : readName (string a.name ++ rest) = .ok (a, rest) := by
      have hstring : string? (string a.name ++ rest) = .ok (a.name, rest) :=
        (takes_string a.name).takes [] rest blank_nil
      rw [readName, bind_ok hstring, Attribute.ofName?_name]
      rfl
    rw [htext] at hname ⊢
    rw [readSubject, peek_mark hblank rfl, if_pos rfl]
    exact hname

theorem takes_json (depth : Nat) (d : Difference) : Takes read (d.json depth) d := by
  have hmembers : Adds Draft.add ⟨none, none, none⟩
      [("attribute", string d.subject.name), ("left", string d.left), ("right", string d.right)]
      ⟨some d.subject, some d.left, some d.right⟩ := by
    refine .member (fun subject => ⟨subject, none, none⟩) rfl (takes_subject d.subject) ?_
    refine .member (fun left => ⟨some d.subject, left, none⟩) rfl (takes_string d.left) ?_
    refine .member (fun right => ⟨some d.subject, some d.left, right⟩) rfl (takes_string d.right) ?_
    exact .done
  exact takes_object hmembers (fun _ => rfl) depth

end Difference

namespace Trace

theorem takes_json (depth : Nat) (t : Trace) : Takes read (t.json depth) t := by
  have hdifferences : Takes (list Difference.read)
      (array (depth + 1) (t.differences.map (Difference.json (depth + 2)))) t.differences :=
    takes_array (fun d _ => d.takes_json (depth + 2)) (depth + 1)
  have hmembers : Adds Draft.add ⟨none, none, none, none⟩
      [("path", string t.path), ("left_label", string t.leftLabel),
        ("right_label", string t.rightLabel),
        ("differences", array (depth + 1) (t.differences.map (Difference.json (depth + 2))))]
      ⟨some t.path, some t.leftLabel, some t.rightLabel, some t.differences⟩ := by
    refine .member (fun path => ⟨path, none, none, none⟩) rfl (takes_string t.path) ?_
    refine .member (fun left => ⟨some t.path, left, none, none⟩) rfl (takes_string t.leftLabel) ?_
    refine .member (fun right => ⟨some t.path, some t.leftLabel, right, none⟩) rfl
      (takes_string t.rightLabel) ?_
    refine .member (fun differences => ⟨some t.path, some t.leftLabel, some t.rightLabel, differences⟩)
      rfl hdifferences ?_
    exact .done
  exact takes_object hmembers (fun _ => rfl) depth

end Trace

namespace Report

theorem takes_stringArray (texts : List String) : Takes (list string?) (stringArray texts) texts :=
  takes_array (fun text _ => takes_string text) 1

theorem takes_json (r : Report) : Takes read r.jsonChars r := by
  have htraces : Takes (list Trace.read) (array 1 (r.traces.map (Trace.json 2))) r.traces :=
    takes_array (fun t _ => t.takes_json 2) 1
  have hmembers : Adds Draft.add ⟨none, none, none, none, none⟩
      [("left_label", string r.leftLabel), ("right_label", string r.rightLabel),
        ("traces", array 1 (r.traces.map (Trace.json 2))),
        ("only_in_left", stringArray r.onlyInLeft), ("only_in_right", stringArray r.onlyInRight)]
      ⟨some r.leftLabel, some r.rightLabel, some r.traces, some r.onlyInLeft,
        some r.onlyInRight⟩ := by
    refine .member (fun left => ⟨left, none, none, none, none⟩) rfl (takes_string r.leftLabel) ?_
    refine .member (fun right => ⟨some r.leftLabel, right, none, none, none⟩) rfl
      (takes_string r.rightLabel) ?_
    refine .member (fun traces => ⟨some r.leftLabel, some r.rightLabel, traces, none, none⟩) rfl
      htraces ?_
    refine .member (fun left => ⟨some r.leftLabel, some r.rightLabel, some r.traces, left, none⟩) rfl
      (takes_stringArray r.onlyInLeft) ?_
    refine .member (fun right =>
      ⟨some r.leftLabel, some r.rightLabel, some r.traces, some r.onlyInLeft, right⟩) rfl
      (takes_stringArray r.onlyInRight) ?_
    exact .done
  exact takes_object hmembers (fun _ => rfl) 0

/-- The printed text of a report stands for it, also with white space behind it. -/
theorem ofJson_append_blank (r : Report) {blank : List Char} (h : Blank blank) :
    ofJson (String.ofList (r.jsonChars ++ blank)) = .ok r :=
  readAll_takes r.takes_json h

theorem ofJson_json_line (r : Report) : ofJson (r.json ++ "\n") = .ok r := by
  have hread := r.ofJson_append_blank (blank_newline 0)
  rwa [String.ofList_append] at hread

/-- A report is read back from the JSON text that is printed for it. -/
theorem ofJson_json (r : Report) : ofJson r.json = .ok r := by
  have hread := r.ofJson_append_blank blank_nil
  rwa [List.append_nil] at hread

end Report

end FileCensus
