import WcagAudit.Proofs.Scan.Coverage
import WcagAudit.Proofs.Scan.Pairing

namespace WcagAudit

open Rule

variable {fs : FileSystem} {c : Config} {start : Path}

theorem Path.sameFile_iff {a b : Option Path} :
    sameFile a b ↔ a.map components = b.map components := by
  cases a <;> cases b <;> simp [sameFile, same]

def Verdict.SameKey (v w : Verdict) : Prop := v.ruleId = w.ruleId ∧ Path.sameFile v.file w.file

namespace Report

theorem verdict?_of_mem {r : Report} {v : Verdict} {file : Option Path}
    (distinct : r.verdicts.Pairwise fun v w => ¬v.SameKey w) (member : v ∈ r.verdicts)
    (same : Path.sameFile v.file file) : r.verdict? v.ruleId file = some v.passed := by
  unfold verdict?
  generalize r.verdicts = verdicts at *
  induction verdicts with
  | nil => cases member
  | cons w verdicts ih =>
    obtain ⟨first, later⟩ := List.pairwise_cons.1 distinct
    cases member with
    | head => rw [List.find?_cons_of_pos (by simp [same]), Option.map_some]
    | tail _ member =>
      rw [List.find?_cons_of_neg, ih later member]
      intro found
      simp only [Bool.and_eq_true, beq_iff_eq, Path.sameFile_iff] at found same
      exact first v member ⟨found.1, Path.sameFile_iff.2 (found.2.trans same.symm)⟩

theorem verdict?_eq_none_iff {r : Report} {ruleId : String} {file : Option Path} :
    r.verdict? ruleId file = none ↔
      ∀ v ∈ r.verdicts, v.ruleId = ruleId → ¬Path.sameFile v.file file := by
  simp [verdict?]

end Report

theorem mem_verdicts_scanMarkup {file : Option Path} {t : List Char} {level : Level} {v : Verdict} :
    v ∈ (scanMarkup file t level).verdicts ↔
      ∃ r : Rule, r.applies file level ∧ r.verdict file (r.passes t) = v := by
  simp only [scanMarkup, List.mem_map, List.mem_filter, evaluate, exists_exists_and_eq_and]
  apply exists_congr
  intro r
  simp [mem_catalogue r]

theorem distinct_scanMarkup (file : Option Path) (t : List Char) (level : Level) :
    (scanMarkup file t level).verdicts.Pairwise fun v w => ¬v.SameKey w := by
  simp only [scanMarkup, List.map_map, List.pairwise_map]
  apply (nodup_catalogue.filter _).imp
  rintro r s apart ⟨hid, -⟩
  exact apart (id_injective r s hid)

theorem distinct_of_reportsOn {level : Level} {files : List Path} {reports : List Report}
    (h : List.Forall₂ (ReportOn level) files reports)
    (apart : files.Pairwise fun p q => ¬p.same q) :
    (reports.flatMap Report.verdicts).Pairwise fun v w => ¬v.SameKey w := by
  induction h with
  | nil => exact .nil
  | @cons p r files reports scanned rest ih =>
    obtain ⟨t, rfl⟩ := scanned
    obtain ⟨first, later⟩ := List.pairwise_cons.1 apart
    rw [List.flatMap_cons, List.pairwise_append]
    refine ⟨distinct_scanMarkup _ t level, ih later, ?_⟩
    rintro v here w there ⟨-, same⟩
    obtain ⟨r, -, rfl⟩ := mem_verdicts_scanMarkup.1 here
    obtain ⟨q, member, -, hq⟩ := (mem_verdict_files rest).1 (List.mem_map_of_mem there)
    rw [← hq] at same
    exact first q member same

theorem distinct_scanDirectory (wf : fs.root.WellFormed) (start : Path) (c : Config) :
    (scanDirectory fs start c).1.verdicts.Pairwise fun v w => ¬v.SameKey w := by
  rw [scanDirectory_eq_foldl_merge, Report.verdicts_foldl_merge]
  exact distinct_of_reportsOn (reportsOn_scannedFiles start) (pairwise_scannedFiles wf start)

/-- A file that a scan takes, and the text that it reads there. -/
def Selected (fs : FileSystem) (start : Path) (c : Config) (p : Path) (t : List Char) : Prop :=
  ∃ names, Candidate fs start c names ∧ start.descend names = p ∧ fs.readText p = .ok t

theorem mem_reports_iff (wf : fs.root.WellFormed) {report : Report} :
    report ∈ (visits fs start c.scan).filterMap (Visit.report? fs c) ↔
      ∃ p t, Selected fs start c p t ∧ scanMarkup (some p) t c.level = report := by
  cases h : fs.node start with
  | error e =>
    rw [visits, h]
    constructor
    · exact fun member => absurd member List.not_mem_nil
    · rintro ⟨p, t, ⟨names, ⟨⟨n, _, _, h', _⟩, _, _⟩, _⟩, _⟩
      cases h.symm.trans h'
  | ok n =>
    obtain ⟨place, -, here⟩ := FileSystem.node_eq_ok.1 h
    have below := wf.at? here
    rw [visits, h, n.reports_walk start, List.mem_filterMap]
    constructor
    · rintro ⟨names, leaf, reported⟩
      have candidate := ((isSome_report?_iff h below).1 ⟨leaf, by rw [reported]; rfl⟩).1
      obtain ⟨t, read, scanned⟩ := scanFile_eq_ok.1 (Visit.report?_file.1 reported).2
      exact ⟨_, t, ⟨names, candidate, rfl, read⟩, scanned⟩
    · rintro ⟨p, t, ⟨names, candidate, rfl, read⟩, scanned⟩
      have short := FileSystem.not_tooLong_of_readText read
      obtain ⟨leaf, -⟩ := (isSome_report?_iff h below).2 ⟨candidate, short⟩
      have taken := Selection.takes_iff.2 candidate.extension
      exact ⟨names, leaf, Visit.report?_file.2 ⟨taken, scanFile_eq_ok.2 ⟨t, read, scanned⟩⟩⟩

theorem mem_verdicts_scanDirectory (wf : fs.root.WellFormed) {v : Verdict} :
    v ∈ (scanDirectory fs start c).1.verdicts ↔
      ∃ p t, Selected fs start c p t ∧
        ∃ r : Rule, r.applies (some p) c.level ∧ r.verdict (some p) (r.passes t) = v := by
  rw [scanDirectory_eq_foldl_merge, Report.verdicts_foldl_merge]
  simp only [Report.empty, List.nil_append, List.mem_flatMap, mem_reports_iff wf]
  constructor
  · rintro ⟨_, ⟨p, t, selected, rfl⟩, member⟩
    exact ⟨p, t, selected, mem_verdicts_scanMarkup.1 member⟩
  · rintro ⟨p, t, selected, judged⟩
    exact ⟨_, ⟨p, t, selected, rfl⟩, mem_verdicts_scanMarkup.2 judged⟩

/-- After a scan, the verdict of a rule at a path is the one that the rule gives on the text of the
selected file there, however the path is spelled; where there is no such file, or the rule does not
apply to it, there is none. -/
theorem verdict?_scanDirectory (wf : fs.root.WellFormed) (start : Path) (c : Config) :
    let report := (scanDirectory fs start c).1
    (report.verdicts.Pairwise fun v w => ¬(v.ruleId = w.ruleId ∧ Path.sameFile v.file w.file)) ∧
    (∀ r ∈ catalogue, ∀ q : Path,
      (∀ p t, Selected fs start c p t → q.components = p.components → r.applies (some p) c.level →
        report.verdict? r.id (some q) = some (r.passes t)) ∧
      ((∀ p t, Selected fs start c p t → q.components = p.components →
        ¬r.applies (some p) c.level) → report.verdict? r.id (some q) = none)) ∧
    ∀ ruleId, report.verdict? ruleId none = none := by
  intro report
  have distinct := distinct_scanDirectory wf start c
  refine ⟨distinct, fun r _ q => ⟨fun p t selected same applies => ?_, fun absent => ?_⟩,
    fun ruleId => ?_⟩
  · have member : r.verdict (some p) (r.passes t) ∈ report.verdicts :=
      (mem_verdicts_scanDirectory wf).2 ⟨p, t, selected, r, applies, rfl⟩
    exact Report.verdict?_of_mem distinct member (beq_iff_eq.2 same.symm)
  · refine Report.verdict?_eq_none_iff.2 fun v member hid same => ?_
    obtain ⟨p, t, selected, s, applies, rfl⟩ := (mem_verdicts_scanDirectory wf).1 member
    cases id_injective s r hid
    exact absent p t selected (beq_iff_eq.1 same).symm applies
  · refine Report.verdict?_eq_none_iff.2 fun v member _ same => ?_
    obtain ⟨p, t, -, r, -, rfl⟩ := (mem_verdicts_scanDirectory wf).1 member
    cases same

def gallery : FileSystem := (({} : FileSystem).writeAll (.ofString "site/a.html") "<img>".toUTF8).2

theorem gallery_wellFormed : gallery.root.WellFormed :=
  FileSystem.writeAll_wellFormed Node.wellFormed_empty (.ofString "site/a.html") _

theorem readText_gallery : gallery.readText (.ofString "site/a.html") = .ok "<img>".toList := by
  have content : gallery.readText (.ofString "site/a.html") = FileSystem.decode "<img>".toUTF8 := rfl
  rw [content, decode_toUTF8]

theorem selected_gallery (level : Level) :
    Selected gallery (.ofString "site") { level } (.ofString "site/a.html") "<img>".toList := by
  refine ⟨[Utf8.ofString "a.html"], ⟨?_, nofun, "html", List.mem_cons_self, by decide⟩, rfl,
    readText_gallery⟩
  exact ⟨.directory [(Utf8.ofString "a.html", .file "<img>".toUTF8)], _, _, rfl, rfl, decode_toUTF8 _⟩

theorem gallery_lookup :
    gallery.root.WellFormed ∧
      (scanDirectory gallery (.ofString "site") { level := .a }).1.verdict? altText.id
        (some (.ofString "site//./a.html/")) = some false :=
  ⟨gallery_wellFormed, ((verdict?_scanDirectory gallery_wellFormed (.ofString "site") _).2.1 altText
    (by decide) (.ofString "site//./a.html/")).1 _ _ (selected_gallery .a) (by decide) (by decide)⟩

end WcagAudit
