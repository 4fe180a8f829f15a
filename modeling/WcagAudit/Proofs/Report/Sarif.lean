import WcagAudit.Proofs.Report.RoundTrip
import WcagAudit.Proofs.Scan.Pairing

namespace WcagAudit

namespace Sarif

structure Tells (result : Json) (f : Finding) : Prop where
  ruleId : result.get "ruleId" = .string f.ruleId
  level : ∃ level, (f.severity, level) ∈
      [(Severity.error, "error"), (.warning, "warning"), (.info, "note")] ∧
    result.get "level" = .string level
  message : (result.get "message").get "text" = .string f.message
  locations : ∃ locations, result.get "locations" = .array locations ∧
    (locations.map fun l => ((l.get "physicalLocation").get "artifactLocation").get "uri") =
      f.file.toList.map fun p => .string p.display

structure Presents (entry : Json) (r : Rule) : Prop where
  id : entry.get "id" = .string r.id
  name : entry.get "name" = .string r.info.name
  description : (entry.get "shortDescription").get "text" = .string r.info.description

def OneRun (t : List Char) (results rules : List Json) : Prop :=
  ∃ members run, Json.parse? t = some (.object members) ∧
    (Json.object members).get "runs" = .array [run] ∧ run.get "results" = .array results ∧
    ((run.get "tool").get "driver").get "rules" = .array rules

theorem tells_result (f : Finding) : Tells (result f) f where
  ruleId := rfl
  level := by
    refine ⟨level f.severity, ?_, rfl⟩
    cases f.severity <;> decide
  message := rfl
  locations := ⟨f.file.toList.map location, rfl, by rw [List.map_map]; rfl⟩

theorem presents_rule (r : Rule) : Presents (rule r) r := ⟨rfl, rfl, rfl⟩

theorem proper_text (s : String) : (text s).Proper := .object (by simp [Json.Proper.string])

theorem proper_rule (r : Rule) : (rule r).Proper :=
  .object (by simp [Json.Proper.string, proper_text])

theorem proper_location (p : Path) : (location p).Proper := by
  have uri : (Json.object [("uri", p.toJson)]).Proper :=
    .object (by simp [Path.toJson, Json.Proper.string])
  have artifact : (Json.object [("artifactLocation", .object [("uri", p.toJson)])]).Proper :=
    .object (by simp [uri])
  exact .object (by simp [artifact])

theorem proper_result (f : Finding) : (result f).Proper := by
  have locations : (Json.list location f.file.toList).Proper := .list fun p _ => proper_location p
  exact .object (by simp [Json.Proper.string, proper_text, locations])

theorem proper_tool : tool.Proper := by
  have rules : (Json.list rule Rule.catalogue).Proper := .list fun r _ => proper_rule r
  exact .object (by simp [Json.Proper.object, Json.Proper.string, rules])

theorem proper_ofReport (r : Report) : (ofReport r).Proper := by
  have results : (Json.list result r.findings).Proper := .list fun f _ => proper_result f
  have run : (Json.object [("tool", tool), ("results", .list result r.findings)]).Proper :=
    .object (by simp [proper_tool, results])
  exact .object (by simp [Json.Proper.string, Json.Proper.array, run])

theorem parse?_pretty_ofReport (r : Report) :
    Json.parse? (String.ofList (ofReport r).pretty).toList = some (ofReport r) := by
  rw [String.toList_ofList, Json.parse?_pretty (proper_ofReport r)]

theorem ids_nodup : (Rule.catalogue.map Rule.id).Nodup := by decide

theorem count_ruleId_of_scanned {r : Report} (h : Scanned r) {f : Finding} (hf : f ∈ r.findings) :
    (Rule.catalogue.map Rule.id).count f.ruleId = 1 := by
  obtain ⟨outcomes, -, findings, settled⟩ := h.paired
  rw [← findings] at hf
  obtain ⟨o, member, tells⟩ := List.mem_filterMap.1 hf
  have told := (settled o member).2 f tells
  obtain ⟨rule, listed, id, -⟩ := told.rule
  rw [told.ruleId, ← id, ids_nodup.count, if_pos (List.mem_map_of_mem listed)]

/-- The SARIF text of a report is that of an object with one run.  Its results tell of the findings,
one by one and in order, and its rules are those of the catalogue; if the report is one of scans, each
result refers to just one of them. -/
theorem sarif_tells_findings (r : Report) :
    ∃ s results rules, r.render .sarif = .ok s ∧ OneRun s.toList results rules ∧
      List.Forall₂ Tells results r.findings ∧ List.Forall₂ Presents rules Rule.catalogue ∧
      ∃ ids : List String, rules.map (·.get "id") = ids.map .string ∧ ids.Nodup ∧
        (Scanned r → ∀ result ∈ results,
          ∃ id, result.get "ruleId" = .string id ∧ ids.count id = 1) := by
  refine ⟨_, r.findings.map result, Rule.catalogue.map rule, rfl,
    ⟨_, _, parse?_pretty_ofReport r, rfl, rfl, rfl⟩, ?_, ?_, Rule.catalogue.map Rule.id, ?_, ids_nodup,
    ?_⟩
  · exact List.forall₂_map_left_iff.2 (List.forall₂_same.2 fun f _ => tells_result f)
  · exact List.forall₂_map_left_iff.2 (List.forall₂_same.2 fun r _ => presents_rule r)
  · rw [List.map_map, List.map_map]
    rfl
  · intro scanned result member
    obtain ⟨f, hf, rfl⟩ := List.mem_map.1 member
    exact ⟨f.ruleId, rfl, count_ruleId_of_scanned scanned hf⟩

theorem bare_image_refers_to_rule :
    let r := scanMarkup (some (.ofString "a.html")) "<img src>".toList .aa
    Scanned r ∧ ∃ s results rules, r.render .sarif = .ok s ∧ OneRun s.toList results rules ∧
      ∃ ids : List String, rules.map (·.get "id") = ids.map .string ∧
        ∃ result ∈ results, ∃ id, result.get "ruleId" = .string id ∧ ids.count id = 1 := by
  intro r
  have scanned : Scanned r := .markup _ _ _
  have blocks : r.blocksRelease :=
    blocksRelease_scanMarkup_iff.2 ⟨Rule.takes_iff.1 (by decide), .altText, rfl, by decide +kernel⟩
  obtain ⟨f, member, -⟩ := blocksRelease_iff.1 blocks
  obtain ⟨s, results, rules, rendered, run, told, -, ids, listed, -, refers⟩ := sarif_tells_findings r
  have some_result : results ≠ [] := by
    rintro rfl
    rw [List.forall₂_nil_left_iff.1 told] at member
    cases member
  obtain ⟨result, others, rfl⟩ := List.exists_cons_of_ne_nil some_result
  exact ⟨scanned, s, _, rules, rendered, run, ids, listed, result, List.mem_cons_self,
    refers scanned result List.mem_cons_self⟩

end Sarif
end WcagAudit
