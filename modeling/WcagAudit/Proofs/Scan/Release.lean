import WcagAudit.Proofs.Rule.Roles
import WcagAudit.Proofs.Text.Utf8
import WcagAudit.Scan.Markup

namespace WcagAudit

namespace Rule

/-- A place that the rules apply to: its extension is that of a markup file, if it has one that is
text. -/
def OnMarkup (file : Option Path) : Prop :=
  ∀ extension, file.bind Path.extension? = some (Utf8.encode extension) →
    ∃ name ∈ extensions, sameAscii name.toList extension

theorem takes_iff {file : Option Path} : takes file ↔ OnMarkup file := by
  have text (extension : List Char) : (file.bind Path.extension?).bind Utf8.decode? = some extension ↔
      file.bind Path.extension? = some (Utf8.encode extension) := by
    simp only [Option.bind_eq_some_iff (x := file.bind _), Utf8.decode?_eq_some]
    exact ⟨fun ⟨_, present, rfl⟩ => present, fun present => ⟨_, present, rfl⟩⟩
  unfold takes OnMarkup
  simp only [← text]
  cases (file.bind Path.extension?).bind Utf8.decode? <;> simp

theorem mem_catalogue (r : Rule) : r ∈ catalogue := by cases r <;> decide

theorem nodup_catalogue : catalogue.Nodup := by decide

theorem inLevel_of_error {r : Rule} (h : r.info.severity = .error) (level : Level) :
    r.inLevel level := by
  cases r <;> cases level <;> first | rfl | cases h

@[simp] theorem severity_finding (r : Rule) (file : Option Path) :
    (r.finding file).severity = r.info.severity := rfl

end Rule

open Rule

theorem mem_findings_scanMarkup {file : Option Path} {markup : List Char} {level : Level}
    {f : Finding} : f ∈ (scanMarkup file markup level).findings ↔
      ∃ r : Rule, r.applies file level ∧ ¬r.passes markup ∧ r.finding file = f := by
  simp only [scanMarkup, List.mem_filterMap, List.mem_map, List.mem_filter, evaluate]
  constructor
  · rintro ⟨_, ⟨r, ⟨-, happlies⟩, rfl⟩, hf⟩
    exact ⟨r, happlies, by simpa using hf⟩
  · rintro ⟨r, happlies, hfails, rfl⟩
    exact ⟨_, ⟨r, ⟨mem_catalogue r, happlies⟩, rfl⟩, by simp [hfails]⟩

theorem blocksRelease_iff {r : Report} :
    r.blocksRelease ↔ ∃ f ∈ r.findings, f.severity = .error := by
  simp only [Report.blocksRelease, Findings.blocksRelease, List.any_eq_true]
  apply exists_congr
  intro f
  apply and_congr_right
  intro _
  cases f.severity <;> simp [Severity.blocksRelease]

theorem blocksRelease_scanMarkup_iff {file : Option Path} {markup : List Char} {level : Level} :
    (scanMarkup file markup level).blocksRelease ↔
      OnMarkup file ∧ ∃ r : Rule, r.info.severity = .error ∧ ¬r.passes markup := by
  simp only [blocksRelease_iff, mem_findings_scanMarkup, ← takes_iff, applies, Bool.and_eq_true]
  constructor
  · rintro ⟨_, ⟨r, ⟨-, hfile⟩, hfails, rfl⟩, herror⟩
    exact ⟨hfile, r, herror, hfails⟩
  · rintro ⟨hfile, r, herror, hfails⟩
    exact ⟨_, ⟨r, ⟨inLevel_of_error herror level, hfile⟩, hfails, rfl⟩, herror⟩

/-- An extension that is no text is none. -/
example : (scanMarkup (some ⟨Utf8.ofString "page." ++ [0xFF]⟩) "<img>".toList .a).blocksRelease ∧
    ¬(scanMarkup (some ⟨Utf8.ofString "page.md"⟩) "<img>".toList .a).blocksRelease := by
  decide +kernel

end WcagAudit
