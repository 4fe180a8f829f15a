import Mathlib.Data.Finset.Card
import WcagAudit.Config.File
import WcagAudit.Proofs.Scan.Release
import WcagAudit.Proofs.Scan.Selection

namespace WcagAudit

open Rule

variable {fs : FileSystem} {c : Config}

def Visit.counted? (fs : FileSystem) (c : Config) (v : Visit) : Option Path :=
  match v with
  | .file p => (Visit.report? fs c (.file p)).map fun _ => p
  | .unreadable _ _ => none

def scannedFiles (fs : FileSystem) (start : Path) (c : Config) : List Path :=
  (visits fs start c.scan).filterMap (Visit.counted? fs c)

namespace Report

theorem verdicts_foldl_merge (r : Report) (reports : List Report) :
    (reports.foldl merge r).verdicts = r.verdicts ++ reports.flatMap verdicts := by
  induction reports generalizing r with
  | nil => simp
  | cons s reports ih => simp [ih, merge]

end Report

theorem mem_verdict_files_scanMarkup {file place : Option Path} {t : List Char} {level : Level} :
    place ∈ (scanMarkup file t level).verdicts.map (·.file) ↔ OnMarkup file ∧ file = place := by
  simp only [scanMarkup, List.map_map, List.mem_map, List.mem_filter, applies, Bool.and_eq_true,
    takes_iff]
  constructor
  · rintro ⟨r, ⟨-, -, hfile⟩, rfl⟩
    exact ⟨hfile, rfl⟩
  · rintro ⟨hfile, rfl⟩
    -- This rule belongs to every level.
    exact ⟨altText, ⟨mem_catalogue altText, inLevel_of_error rfl level, hfile⟩, rfl⟩

theorem mem_counted?_iff {p : Path} {v : Visit} : v.counted? fs c = some p ↔
    v = .file p ∧ ∃ r, Visit.report? fs c (.file p) = some r := by
  cases v with
  | file q =>
    simp only [Visit.counted?, Option.map_eq_some_iff, Visit.file.injEq]
    constructor
    · rintro ⟨r, hr, rfl⟩
      exact ⟨rfl, r, hr⟩
    · rintro ⟨rfl, r, hr⟩
      exact ⟨r, hr, rfl⟩
  | unreadable q e => simp [Visit.counted?]

def ReportOn (level : Level) (p : Path) (r : Report) : Prop := ∃ t, scanMarkup (some p) t level = r

theorem reportsOn_scannedFiles (start : Path) :
    List.Forall₂ (ReportOn c.level) (scannedFiles fs start c)
      ((visits fs start c.scan).filterMap (Visit.report? fs c)) := by
  unfold scannedFiles
  induction visits fs start c.scan with
  | nil => exact .nil
  | cons v vs ih =>
    cases v with
    | unreadable p e => exact ih
    | file p =>
      cases h : Visit.report? fs c (.file p) with
      | none => simpa [Visit.counted?, h] using ih
      | some r =>
        obtain ⟨t, -, scanned⟩ := scanFile_eq_ok.1 (Visit.report?_file.1 h).2
        simpa [Visit.counted?, h] using And.intro ⟨t, scanned⟩ ih

theorem filesScanned_foldl_merge {level : Level} {files : List Path} {reports : List Report}
    (h : List.Forall₂ (ReportOn level) files reports) (r : Report) :
    (reports.foldl Report.merge r).filesScanned = r.filesScanned + UInt64.ofNat files.length := by
  induction h generalizing r with
  | nil => exact (UInt64.add_zero _).symm
  | cons scanned _ ih =>
    obtain ⟨t, rfl⟩ := scanned
    rw [List.foldl_cons, ih, List.length_cons, UInt64.ofNat_add, UInt64.add_comm (UInt64.ofNat _),
      ← UInt64.add_assoc]
    rfl

theorem mem_verdict_files {level : Level} {files : List Path} {reports : List Report}
    {place : Option Path} (h : List.Forall₂ (ReportOn level) files reports) :
    place ∈ (reports.flatMap Report.verdicts).map (·.file) ↔
      ∃ p ∈ files, OnMarkup (some p) ∧ some p = place := by
  induction h with
  | nil => simp
  | cons scanned _ ih =>
    obtain ⟨t, rfl⟩ := scanned
    rw [List.flatMap_cons, List.map_append, List.mem_append, ih, mem_verdict_files_scanMarkup]
    simp

theorem filesScanned_scanDirectory (start : Path) :
    (scanDirectory fs start c).1.filesScanned = UInt64.ofNat (scannedFiles fs start c).length := by
  rw [scanDirectory_eq_foldl_merge, filesScanned_foldl_merge (reportsOn_scannedFiles start)]
  exact UInt64.zero_add _

theorem mem_verdict_files_scanDirectory {start : Path} {place : Option Path} :
    place ∈ (scanDirectory fs start c).1.verdicts.map (·.file) ↔
      ∃ p ∈ scannedFiles fs start c, OnMarkup (some p) ∧ some p = place := by
  rw [scanDirectory_eq_foldl_merge, Report.verdicts_foldl_merge]
  exact mem_verdict_files (reportsOn_scannedFiles start)

theorem scannedFiles_eq {start : Path} {n : Node} (h : fs.node start = .ok n) :
    scannedFiles fs start c = (n.leaves c.scan).filterMap fun names =>
      Visit.counted? fs c (.file (start.descend names)) := by
  rw [scannedFiles, visits, h]
  apply n.filterMap_walk (fun _ _ => rfl)
  intro p long
  rw [Visit.counted?, Visit.report?_of_tooLong long]
  rfl

theorem pairwise_scannedFiles (wf : fs.root.WellFormed) (start : Path) :
    (scannedFiles fs start c).Pairwise fun p q => ¬p.same q := by
  cases h : fs.node start with
  | error e =>
    rw [scannedFiles, visits, h]
    exact .nil
  | ok n =>
    obtain ⟨place, located, here⟩ := FileSystem.node_eq_ok.1 h
    have nonempty := (FileSystem.locate_eq_ok.1 located).2.1
    have below := wf.at? here
    have components {names : List FileName} (leaf : names ∈ n.leaves c.scan) :
        (start.descend names).components = start.components ++ names.map .name := by
      obtain ⟨⟨content, found⟩, -⟩ := (n.mem_leaves below names).1 leaf
      exact Path.components_descend nonempty (below.valid_of_at? found)
    rw [scannedFiles_eq h, List.pairwise_filterMap]
    refine (n.pairwise_leaves below).imp_of_mem fun leaf leaf' before p hp q hq same => ?_
    cases (mem_counted?_iff.1 hp).1
    cases (mem_counted?_iff.1 hq).1
    rw [Path.same, beq_iff_eq, components leaf, components leaf', List.append_cancel_left_eq] at same
    have name_injective : Function.Injective Path.Component.name := fun _ _ => Path.Component.name.inj
    exact Std.ne_of_lt before (List.map_injective_iff.2 name_injective same)

theorem onMarkup_of_takes {s : Selection} {p : Path} (h : s.takes p)
    (markup : ∀ e ∈ s.extensions, ∃ name ∈ extensions, sameAscii name.toList e.toList) :
    OnMarkup (some p) := by
  obtain ⟨e, selected, same⟩ := Selection.takes_iff.1 h
  obtain ⟨name, member, same'⟩ := markup e selected
  intro extension here
  simp only [Option.bind_some] at here
  rw [here, Option.getD_some, textOrEmpty_encode] at same
  refine ⟨name, member, ?_⟩
  simp only [sameAscii, beq_iff_eq] at *
  exact same'.trans same

theorem takes_of_mem_scannedFiles {start p : Path} (h : p ∈ scannedFiles fs start c) :
    c.scan.takes p := by
  obtain ⟨v, -, hv⟩ := List.mem_filterMap.1 h
  obtain ⟨-, r, hr⟩ := mem_counted?_iff.1 hv
  exact (Visit.report?_file.1 hr).1

/-- A scan counts each selected file of text once, and the rules look at those that are markup: the
counted files fall apart into those of the verdicts and those that are no markup.  If the configuration
selects nothing but markup, every counted file has a verdict. -/
theorem scanDirectory_covers_markup (wf : fs.root.WellFormed) (start : Path) (c : Config) :
    let report := (scanDirectory fs start c).1
    let files := scannedFiles fs start c
    let judged := (report.verdicts.map (·.file)).toFinset
    report.filesScanned = UInt64.ofNat files.length ∧
    (files.Pairwise fun p q => ¬p.same q) ∧
    (∀ place, place ∈ judged ↔ ∃ p ∈ files, OnMarkup (some p) ∧ some p = place) ∧
    files.length = judged.card + (files.filter fun p => !takes (some p)).length ∧
    ((∀ e ∈ c.scan.extensions, ∃ name ∈ extensions, sameAscii name.toList e.toList) →
      (∀ p ∈ files, some p ∈ judged) ∧ report.filesScanned = UInt64.ofNat judged.card) := by
  intro report files judged
  have counted : report.filesScanned = UInt64.ofNat files.length := filesScanned_scanDirectory start
  have distinct : files.Pairwise fun p q => ¬p.same q := pairwise_scannedFiles wf start
  have member (place : Option Path) :
      place ∈ judged ↔ ∃ p ∈ files, OnMarkup (some p) ∧ some p = place :=
    List.mem_toFinset.trans mem_verdict_files_scanDirectory
  -- Two paths that are equal name the same file, so no file is counted twice.
  have nodup : files.Nodup := distinct.imp fun apart => by
    rintro rfl
    exact apart (beq_self_eq_true _)
  have same : judged = ((files.filter fun p => takes (some p)).map some).toFinset := by
    ext place
    simp [member, takes_iff, and_assoc]
  have split : files.length = judged.card + (files.filter fun p => !takes (some p)).length := by
    rw [same, List.toFinset_card_of_nodup ((nodup.filter _).map (Option.some_injective _)),
      List.length_map]
    exact List.length_eq_length_filter_add _
  refine ⟨counted, distinct, member, split, fun markup => ?_⟩
  have all (p : Path) (h : p ∈ files) : OnMarkup (some p) :=
    onMarkup_of_takes (takes_of_mem_scannedFiles h) markup
  have none : (files.filter fun p => !takes (some p)) = [] := by
    simpa [takes_iff] using all
  refine ⟨fun p h => (member _).2 ⟨p, h, all p h, rfl⟩, ?_⟩
  rw [counted, split, none]
  rfl

theorem onePage_judged :
    onePage.root.WellFormed ∧
      (∀ e ∈ Config.default.scan.extensions, ∃ name ∈ extensions, sameAscii name.toList e.toList) ∧
      (scanDirectory onePage (slashes 0) .default).1.filesScanned = UInt64.ofNat
        ((scanDirectory onePage (slashes 0) .default).1.verdicts.map (·.file)).toFinset.card :=
  have markup : ∀ e ∈ Config.default.scan.extensions, ∃ name ∈ extensions,
      sameAscii name.toList e.toList := by decide
  ⟨onePage_wellFormed, markup,
    ((scanDirectory_covers_markup onePage_wellFormed (slashes 0) .default).2.2.2.2 markup).2⟩

def manual : FileSystem :=
  let configured := (({} : FileSystem).writeAll (.ofString "a11ylint.toml")
    "[scan]\nextensions = [\"md\"]\n".toUTF8).2
  (configured.writeAll (.ofString "docs/notes.md") "<img>".toUTF8).2

theorem manual_wellFormed : manual.root.WellFormed :=
  FileSystem.writeAll_wellFormed
    (FileSystem.writeAll_wellFormed Node.wellFormed_empty (.ofString "a11ylint.toml") _)
    (.ofString "docs/notes.md") _

def mdOnly : Config := { scan := { extensions := ["md"] } }

theorem load_manual : Config.load manual (.ofString "a11ylint.toml") = .ok mdOnly := by
  have content : manual.readText (.ofString "a11ylint.toml") =
      FileSystem.decode "[scan]\nextensions = [\"md\"]\n".toUTF8 := rfl
  have here : manual.pathExists (.ofString "a11ylint.toml") := rfl
  rw [Config.load, if_pos here, content, decode_toUTF8]
  rfl

theorem visits_manual :
    visits manual (.ofString "docs") mdOnly.scan = [.file (.ofString "docs/notes.md")] := by
  have below : manual.node (.ofString "docs") =
      .ok (.directory [(Utf8.ofString "notes.md", .file "<img>".toUTF8)]) := rfl
  rw [visits, below]
  simp only [Node.walk, walkInside, sortEntries, List.mergeSort_singleton]
  rfl

theorem report?_manual : Visit.report? manual mdOnly (.file (.ofString "docs/notes.md")) =
    some { filesScanned := 1 } := by
  have content : manual.readText (.ofString "docs/notes.md") =
      FileSystem.decode "<img>".toUTF8 := rfl
  refine Visit.report?_file.2 ⟨rfl, scanFile_eq_ok.2 ⟨"<img>".toList, ?_, rfl⟩⟩
  rw [content, decode_toUTF8]

theorem manual_counted_not_judged :
    manual.root.WellFormed ∧ Config.load manual (.ofString "a11ylint.toml") = .ok mdOnly ∧
      scannedFiles manual (.ofString "docs") mdOnly = [.ofString "docs/notes.md"] ∧
      (scanDirectory manual (.ofString "docs") mdOnly).1.filesScanned = 1 ∧
      (scanDirectory manual (.ofString "docs") mdOnly).1.verdicts = [] := by
  have scanned : (scanDirectory manual (.ofString "docs") mdOnly).1 = { filesScanned := 1 } := by
    rw [scanDirectory_eq_foldl_merge, visits_manual, List.filterMap_cons, report?_manual]
    rfl
  refine ⟨manual_wellFormed, load_manual, ?_, by rw [scanned], by rw [scanned]⟩
  rw [scannedFiles, visits_manual, List.filterMap_cons, Visit.counted?, report?_manual]
  rfl

end WcagAudit
