import WcagAudit.Proofs.Report.LastLine
import WcagAudit.Proofs.Scan.Lookup

namespace WcagAudit.Report

/-- The `i`-th verdict, `v`, is the first, or it is on another file than the one before. -/
def Opens (vs : List Verdict) (v : Verdict) : Nat → Prop
  | 0 => True
  | i + 1 => ∃ u, vs[i]? = some u ∧ u.file.map Path.components ≠ v.file.map Path.components

structure Row (v : Verdict) (outcome blanks row : String) : Prop where
  row : row = s!"  {outcome}  {v.ruleId}{blanks}  WCAG {v.criterion} ({v.level.name})"
  passed : v.passed = true → outcome = "PASS"
  failed : v.passed = false → outcome = "FAIL"
  blanks : blanks.toList = List.replicate (38 - v.ruleId.length) ' '

structure Table (vs : List Verdict) (entries : List (List String)) : Prop where
  length : entries.length = vs.length
  opens : ∀ i v, vs[i]? = some v → Opens vs v i → ∃ outcome blanks row, Row v outcome blanks row ∧
    entries[i]? = some [v.file.elim "<input>" Path.display, row]
  goesOn : ∀ i v, vs[i]? = some v → ¬Opens vs v i → ∃ outcome blanks row, Row v outcome blanks row ∧
    entries[i]? = some [row]

theorem row_verdictLine (v : Verdict) :
    Row v (outcome v) (String.ofList (List.replicate (38 - v.ruleId.length) ' ')) (verdictLine v) where
  row := by
    have column : padTo 38 v.ruleId =
        v.ruleId ++ String.ofList (List.replicate (38 - v.ruleId.length) ' ') := by
      rw [padTo, padRight, String.ofList_append, String.ofList_toList, String.length_toList]
    rw [verdictLine, column]
    simp only [toString, String.append_assoc]
  passed h := by rw [outcome, h, if_pos rfl]
  failed h := by rw [outcome, h, if_neg Bool.false_ne_true]
  blanks := String.toList_ofList

def entry (above : Option Verdict) (v : Verdict) : List String :=
  if above.any fun u => Path.sameFile u.file v.file then [verdictLine v]
  else [Path.location v.file, verdictLine v]

theorem verdictLines_eq (above : Option Verdict) (vs : List Verdict) :
    verdictLines above vs = (List.zipWith entry (above :: vs.map some) vs).flatten := by
  induction vs generalizing above with
  | nil => rfl
  | cons v vs ih =>
    rw [verdictLines, ih, List.map_cons, List.zipWith_cons_cons, List.flatten_cons, entry]
    split <;> rfl

theorem table_entries (vs : List Verdict) : Table vs (List.zipWith entry (none :: vs.map some) vs) where
  length := by simp
  opens i v here opened := by
    refine ⟨_, _, _, row_verdictLine v, ?_⟩
    cases i with
    | zero => simp [List.getElem?_zipWith, here, entry, Path.location]
    | succ i =>
      obtain ⟨u, before, apart⟩ := opened
      have other : ¬Path.sameFile u.file v.file := mt Path.sameFile_iff.1 apart
      simp [List.getElem?_zipWith, here, before, entry, other, Path.location]
  goesOn i v here inside := by
    refine ⟨_, _, _, row_verdictLine v, ?_⟩
    cases i with
    | zero => exact absurd trivial inside
    | succ i =>
      obtain ⟨u, before⟩ : ∃ u, vs[i]? = some u := by
        have short := (List.getElem?_eq_some_iff.1 here).1
        exact ⟨_, List.getElem?_eq_getElem (by omega)⟩
      have same : Path.sameFile u.file v.file := by
        by_contra apart
        exact inside ⟨u, before, mt Path.sameFile_iff.2 apart⟩
      simp [List.getElem?_zipWith, here, before, entry, same]

/-- The lines on a finding: rule and message, the place, the criterion if there is one with a level, and
the people that it affects if there are any. -/
structure Block (f : Finding) (wcag affects block : List String) : Prop where
  lines : block = [s!"[{f.ruleId}] {f.message}",
    "  Location: " ++ f.file.elim "<input>" Path.display] ++ wcag ++ affects ++ [""]
  criterion : ∀ criterion level, f.criterion = some criterion → f.level = some level →
    wcag = [s!"  WCAG: {criterion} (Level {level.name})"]
  noCriterion : f.criterion = none ∨ f.level = none → wcag = []
  impact : ∀ i, f.impact = some i → i.blind ∨ i.motor ∨ i.cognitive →
    affects = ["  Affects: " ++ ", ".intercalate i.groups]
  noImpact : (∀ i, f.impact = some i → ¬(i.blind ∨ i.motor ∨ i.cognitive)) → affects = []

theorem groups_eq_nil {i : Impact} : i.groups = [] ↔ ¬(i.blind ∨ i.motor ∨ i.cognitive) := by
  obtain ⟨blind, motor, cognitive⟩ := i
  revert blind motor cognitive
  decide

theorem block_findingLines (f : Finding) :
    Block f (criterionLines f) (impactLines f) (findingLines f) where
  lines := rfl
  criterion c l hc hl := by simp [criterionLines, hc, hl]
  noCriterion absent := by
    unfold criterionLines
    split
    · simp_all
    · rfl
  impact i hi affected := by
    simp only [impactLines, hi, Option.elim_some]
    cases groups : i.groups with
    | nil => exact absurd affected (groups_eq_nil.1 groups)
    | cons group groups => rfl
  noImpact nobody := by
    cases h : f.impact with
    | none => simp [impactLines, h]
    | some i => simp [impactLines, h, groups_eq_nil.2 (nobody i h)]

def SectionOf (findings : List Finding) (s : Severity) (title : String) (lines : List String) : Prop :=
  let found := findings.filter (·.severity = s)
  ∃ blocks, List.Forall₂ (fun f block => ∃ wcag affects, Block f wcag affects block) found blocks ∧
    lines = (if found = [] then [] else [s!"--- {title} ({found.length}) ---"]) ++ blocks.flatten

theorem section_sectionLines (findings : List Finding) (s : Severity) :
    SectionOf findings s s.title (sectionLines findings s) := by
  unfold SectionOf sectionLines Findings.bySeverity
  generalize findings.filter (·.severity = s) = found
  refine ⟨found.map findingLines, ?_, ?_⟩
  · exact List.forall₂_map_right_iff.2
      (List.forall₂_same.2 fun f _ => ⟨_, _, block_findingLines f⟩)
  · rw [← List.flatMap_def]
    cases found <;> rfl

theorem perm_bySeverity (findings : List Finding) :
    (Severity.all.flatMap fun s => findings.filter (·.severity = s)).Perm findings := by
  induction findings with
  | nil => rfl
  | cons f findings ih =>
    simp only [Severity.all, List.flatMap_cons, List.flatMap_nil, List.append_nil] at *
    cases h : f.severity with
    | error => simpa [h] using ih
    | warning => simpa [h] using List.perm_middle.trans (ih.cons f)
    | info =>
      have last := ih.cons f
      rw [← List.append_assoc] at last
      simpa [h] using List.perm_middle.trans last

theorem lines_of_verdicts {r : Report} (judged : r.verdicts ≠ []) :
    r.lines = ["=== a11ylint WCAG Report ===", "", summaryLine r, ""] ++ verdictLines none r.verdicts ++
      ["", findingsLine r, ""] ++ Severity.all.flatMap (sectionLines r.findings) ++ [resultLine r] := by
  rw [lines, bodyLines]
  cases h : r.verdicts with
  | nil => exact absurd h judged
  | cons v vs => rfl

/-- Each verdict has its line, in order, and the name of its file stands above where it is not that of
the verdict before.  The numbers are those of the verdicts and of the findings.  Each finding has its
block, in the section of its severity, and the sections hold no others. -/
theorem text_tells_everything (r : Report) (judged : r.verdicts ≠ []) :
    ∃ (s : String) (table sections : List (List String)) (passed failed errors warnings : Nat),
      r.render .text = .ok s ∧
      s.toList =
        (["=== a11ylint WCAG Report ===", "",
          s!"Files scanned: {r.filesScanned}, rule checks: {passed} passed, {failed} failed", ""] ++
          table.flatten ++ ["",
          s!"Findings: {errors} error(s), {warnings} warning(s), {r.findings.length} total", ""] ++
          sections.flatten ++ [resultLine r]).flatMap (fun line => line.toList ++ ['\n']) ∧
      Table r.verdicts table ∧
      passed = (r.verdicts.filter (·.passed)).length ∧ passed + failed = r.verdicts.length ∧
      errors = (r.findings.filter (·.severity = .error)).length ∧
      warnings = (r.findings.filter (·.severity = .warning)).length ∧
      List.Forall₂ (fun (s, title) => SectionOf r.findings s title)
        [(.error, "ERROR"), (.warning, "WARNING"), (.info, "INFO")] sections ∧
      ([Severity.error, .warning, .info].flatMap fun s =>
        r.findings.filter (·.severity = s)).Perm r.findings := by
  refine ⟨_, List.zipWith entry (none :: r.verdicts.map some) r.verdicts,
    Severity.all.map (sectionLines r.findings), r.passed.length, r.failed.length, _, _, rfl, ?_,
    table_entries r.verdicts, rfl, ?_, rfl, rfl, ?_, perm_bySeverity r.findings⟩
  · rw [toList_toText, lines_of_verdicts judged, verdictLines_eq, List.flatMap_def]
    rfl
  · exact (List.length_eq_length_filter_add _).symm
  · have titled (s : Severity) := section_sectionLines r.findings s
    exact .cons (titled .error) (.cons (titled .warning) (.cons (titled .info) .nil))

def mixed : Report where
  filesScanned := 2
  verdicts := [Rule.altText.verdict (some (.ofString "a.html")) false,
    Rule.ariaLiveRegions.verdict (some (.ofString "a.html/.")) false, Rule.altText.verdict none true]
  findings := [Rule.ariaLiveRegions.finding (some (.ofString "a.html/.")),
    Rule.altText.finding (some (.ofString "a.html"))]

theorem eq_verdictLine_of_row {v : Verdict} {result blanks row : String}
    (h : Row v result blanks row) : row = verdictLine v := by
  have same := row_verdictLine v
  have word : result = outcome v := by
    cases passed : v.passed with
    | true => rw [h.passed passed, same.passed passed]
    | false => rw [h.failed passed, same.failed passed]
  rw [h.row, same.row, word, String.toList_inj.1 (h.blanks.trans same.blanks.symm)]

theorem mixed_told :
    mixed.verdicts ≠ [] ∧ ∃ table sections : List (List String), Table mixed.verdicts table ∧
      table = [
        ["a.html", "  FAIL  WCAG-1.1.1-alt-text                     WCAG 1.1.1 (A)"],
        ["  FAIL  WCAG-4.1.3-aria-live-regions            WCAG 4.1.3 (AA)"],
        ["<input>", "  PASS  WCAG-1.1.1-alt-text                     WCAG 1.1.1 (A)"]] ∧
      List.Forall₂ (fun (s, title) => SectionOf mixed.findings s title)
        [(.error, "ERROR"), (.warning, "WARNING"), (.info, "INFO")] sections := by
  have judged : mixed.verdicts ≠ [] := nofun
  obtain ⟨s, table, sections, _, _, _, _, -, -, told, -, -, -, -, sorted, -⟩ :=
    text_tells_everything mixed judged
  obtain ⟨_, _, _, row, first⟩ := told.opens 0 _ rfl trivial
  obtain ⟨_, _, _, row', second⟩ :=
    told.goesOn 1 _ rfl (by rintro ⟨u, here, apart⟩; cases here; exact apart (by decide))
  obtain ⟨_, _, _, row'', third⟩ := told.opens 2 _ rfl ⟨_, rfl, nofun⟩
  have length := told.length
  refine ⟨judged, table, sections, told, ?_, sorted⟩
  rw [eq_verdictLine_of_row row] at first
  rw [eq_verdictLine_of_row row'] at second
  rw [eq_verdictLine_of_row row''] at third
  match table, length with
  | [a, b, c], _ =>
    obtain rfl := Option.some.inj first
    obtain rfl := Option.some.inj second
    obtain rfl := Option.some.inj third
    decide +kernel

end WcagAudit.Report
