import Mathlib.Data.List.Forall2
import WcagAudit.Proofs.FileSystem.Changes
import WcagAudit.Proofs.Scan.Walk
import WcagAudit.Proofs.Text.Utf8

namespace WcagAudit

variable {fs : FileSystem} {c : Config}

def Visit.report? (fs : FileSystem) (c : Config) (v : Visit) : Option Report :=
  (v.outcome? fs c).bind Except.toOption

theorem Visit.report?_file {p : Path} {r : Report} :
    report? fs c (.file p) = some r ↔ c.scan.takes p ∧ scanFile fs p c = .ok r := by
  simp only [report?, outcome?]
  cases c.scan.takes p with
  | false => simp
  | true => cases scanFile fs p c <;> simp [Except.mapError, Except.toOption]

theorem scanFile_eq_ok {p : Path} {r : Report} :
    scanFile fs p c = .ok r ↔ ∃ t, fs.readText p = .ok t ∧ scanMarkup (some p) t c.level = r := by
  unfold scanFile
  cases fs.readText p with
  | error e => exact ⟨nofun, nofun⟩
  | ok t => simp [bind, Except.bind, pure, Except.pure]

theorem not_tooLong_of_scanFile {p : Path} {r : Report} (h : scanFile fs p c = .ok r) :
    FileSystem.tooLong p = false := by
  obtain ⟨t, read, -⟩ := scanFile_eq_ok.1 h
  exact FileSystem.not_tooLong_of_readText read

theorem Visit.report?_of_tooLong {p : Path} (long : FileSystem.tooLong p) :
    report? fs c (.file p) = none := by
  apply Option.eq_none_iff_forall_ne_some.2
  intro r h
  exact Bool.eq_false_iff.1 (not_tooLong_of_scanFile (report?_file.1 h).2) long

theorem Node.filterMap_walk {f : Visit → Option α} (unreadable : ∀ p e, f (.unreadable p e) = none)
    (unopened : ∀ p, FileSystem.tooLong p → f (.file p) = none) (n : Node) (p : Path) :
    (n.walk c.scan p).filterMap f =
      (n.leaves c.scan).filterMap fun names => f (.file (p.descend names)) := by
  induction n using Node.induction generalizing p with
  | file content => rw [walk, leaves]; rfl
  | directory entries ih =>
    rw [walk_directory]
    split
    · next long =>
      -- The walk stops here, and what is below could not be opened by its path either.
      rw [List.filterMap_eq_nil_iff.2 fun names _ =>
        unopened _ (FileSystem.tooLong_descend long names)]
      simp [unreadable]
    · rw [leaves_directory, List.filterMap_flatMap, List.filterMap_flatMap]
      apply List.flatMap_congr
      intro e member
      split
      · rw [ih e (mem_sortEntries.1 member), List.filterMap_map]
        rfl
      · rfl

theorem Node.reports_walk (n : Node) (p : Path) :
    (n.walk c.scan p).filterMap (Visit.report? fs c) =
      (n.leaves c.scan).filterMap fun names => Visit.report? fs c (.file (p.descend names)) :=
  n.filterMap_walk (fun _ _ => rfl) (fun _ => Visit.report?_of_tooLong) p

theorem scanDirectory_eq_foldl_merge (start : Path) : (scanDirectory fs start c).1 =
    ((visits fs start c.scan).filterMap (Visit.report? fs c)).foldl Report.merge .empty := by
  rw [scanDirectory, List.filterMap_filterMap]
  rfl

theorem scanDirectory_report {start : Path} {n : Node} (h : fs.node start = .ok n) :
    (scanDirectory fs start c).1 =
      ((n.leaves c.scan).filterMap fun names =>
        Visit.report? fs c (.file (start.descend names))).foldl Report.merge .empty := by
  rw [scanDirectory_eq_foldl_merge, visits, h, ← n.reports_walk start]

theorem exists_of_forall₂ {R : α → β → Prop} {l : List α} {m : List β} (h : List.Forall₂ R l m)
    {a : α} (ha : a ∈ l) : ∃ b, R a b := by
  induction h with
  | nil => cases ha
  | cons r _ ih =>
    cases ha with
    | head => exact ⟨_, r⟩
    | tail _ ha => exact ih ha

theorem forall₂_filterMap (f : α → Option β) (l : List α) :
    List.Forall₂ (fun a b => f a = some b) (l.filter fun a => (f a).isSome) (l.filterMap f) := by
  induction l with
  | nil => exact .nil
  | cons a l ih =>
    cases h : f a with
    | none => simpa [h] using ih
    | some b => simpa [h] using ih

/-- The names lead from where a scan starts to a file of text with a selected extension, and through
no directory that is excluded or hidden. -/
structure Candidate (fs : FileSystem) (start : Path) (c : Config) (names : List FileName) : Prop where
  content : ∃ n content t, fs.node start = .ok n ∧ n.at? names = some (.file content) ∧
    FileSystem.decode content = .ok t
  entered : ∀ d ∈ names.dropLast,
    textOrEmpty d ∉ c.scan.exclude.map String.toList ∧ (textOrEmpty d).head? ≠ some '.'
  extension : ∃ e ∈ c.scan.extensions,
    sameAscii e.toList (textOrEmpty ((start.descend names).extension?.getD []))

@[simp] theorem textOrEmpty_encode (t : List Char) : textOrEmpty (Utf8.encode t) = t := by
  rw [textOrEmpty, Utf8.decode?_encode, Option.getD_some]

theorem Selection.enters_iff {s : Selection} {d : FileName} : s.enters d ↔
    textOrEmpty d ∉ s.exclude.map String.toList ∧ (textOrEmpty d).head? ≠ some '.' := by
  simp [enters, excludesDirectory]

theorem Selection.takes_iff {s : Selection} {p : Path} :
    s.takes p ↔ ∃ e ∈ s.extensions, sameAscii e.toList (textOrEmpty (p.extension?.getD [])) := by
  simp [takes, includesExtension]

theorem isSome_report?_iff {start : Path} {n : Node} {names : List FileName}
    (h : fs.node start = .ok n) (wf : n.WellFormed) :
    names ∈ n.leaves c.scan ∧ (Visit.report? fs c (.file (start.descend names))).isSome ↔
      Candidate fs start c names ∧ FileSystem.tooLong (start.descend names) = false := by
  rw [n.mem_leaves wf, Option.isSome_iff_exists]
  constructor
  · rintro ⟨⟨⟨content, found⟩, entered⟩, r, reported⟩
    obtain ⟨taken, scanned⟩ := Visit.report?_file.1 reported
    have short := not_tooLong_of_scanFile scanned
    obtain ⟨t, read, -⟩ := scanFile_eq_ok.1 scanned
    rw [FileSystem.readText_descend h wf found short] at read
    exact ⟨⟨⟨n, content, t, h, found, read⟩, fun d hd => Selection.enters_iff.1 (entered d hd),
      Selection.takes_iff.1 taken⟩, short⟩
  · rintro ⟨⟨⟨n', content, t, h', found, read⟩, entered, extension⟩, short⟩
    cases h.symm.trans h'
    rw [← FileSystem.readText_descend h wf found short] at read
    exact ⟨⟨⟨content, found⟩, fun d hd => Selection.enters_iff.2 (entered d hd)⟩, _,
      Visit.report?_file.2 ⟨Selection.takes_iff.2 extension, scanFile_eq_ok.2 ⟨t, read, rfl⟩⟩⟩

def onePage : FileSystem := (({} : FileSystem).writeAll (.ofString "index.html") .empty).2

theorem onePage_wellFormed : onePage.root.WellFormed :=
  FileSystem.writeAll_wellFormed Node.wellFormed_empty (.ofString "index.html") .empty

def index : FileName := Utf8.ofString "index.html"

theorem valid_index : index.Valid := by constructor <;> decide

def slashes (n : Nat) : Path := ⟨Path.dot :: List.replicate n Path.slash⟩

theorem length_slashes (n : Nat) : (slashes n).bytes.length = n + 1 := by simp [slashes]

theorem piecesBy_slashes (n : Nat) :
    piecesBy Path.isSlash (slashes n).bytes = [Path.dot] :: List.replicate n [] := by
  have pieces : piecesBy Path.isSlash (List.replicate n Path.slash) = [] :: List.replicate n [] := by
    induction n with
    | zero => rfl
    | succ n ih => rw [List.replicate_succ, piecesBy_cons_pos rfl, ih]; rfl
  exact piecesBy_cons_neg (by decide) pieces

theorem follow_replicate {root : Node} {place : List FileName} {entries : List (FileName × Node)}
    (here : root.at? place = some (.directory entries)) (n : Nat) :
    FileSystem.follow root place (List.replicate n []) = .ok place := by
  induction n with
  | zero => rfl
  | succ n ih => simpa [List.replicate_succ, FileSystem.follow, here] using ih

theorem slashes_ne_nil (n : Nat) : (slashes n).bytes ≠ [] := List.cons_ne_nil _ _

theorem node_slashes {n : Nat} (h : n < 4095) : onePage.node (slashes n) = .ok onePage.root := by
  refine FileSystem.node_eq_ok.2 ⟨[], FileSystem.locate_eq_ok.2 ⟨?_, ?_, ?_, ?_⟩, rfl⟩
  · have noNul : (0 : UInt8) ≠ Path.dot ∧ (0 : UInt8) ≠ Path.slash := by decide
    simp [slashes, noNul]
  · exact slashes_ne_nil n
  · rw [← Bool.not_eq_true, FileSystem.tooLong_iff, length_slashes]
    omega
  · rw [piecesBy_slashes]
    exact follow_replicate rfl n

theorem tooLong_page {n : Nat} (h : 4085 ≤ n) :
    FileSystem.tooLong ((slashes n).descend [index]) := by
  have longer : (slashes n).bytes.length + index.length ≤ ((slashes n).join index).bytes.length := by
    obtain bytes | bytes := (slashes n).bytes_join index <;> simp [bytes]
  have name : index.length = 10 := rfl
  rw [length_slashes, name] at longer
  exact FileSystem.tooLong_iff.2 (by simp only [Path.descend, List.foldl]; omega)

theorem candidate_slashes {n : Nat} (h : n < 4095) : Candidate onePage (slashes n) {} [index] where
  content := ⟨onePage.root, .empty, [], node_slashes h, rfl, rfl⟩
  entered := nofun
  extension := by
    have name : (Path.join (slashes n) index).fileName? = some index :=
      Path.fileName?_join (slashes_ne_nil n) valid_index
    refine ⟨"html", by decide, ?_⟩
    rw [Path.descend, List.foldl_cons, List.foldl_nil, Path.extension?, name]
    decide

/-- A scan merges the reports of the candidates with short enough paths: each once, depth first, the
entries of a directory in the order of their names. -/
theorem scanDirectory_merges_candidates (wf : fs.root.WellFormed) (start : Path) (c : Config) :
    ∃ files : List (List FileName), files.Pairwise (· < ·) ∧
      (∀ names, names ∈ files ↔
        Candidate fs start c names ∧ FileSystem.tooLong (start.descend names) = false) ∧
      ∃ reports,
        List.Forall₂ (fun names r => scanFile fs (start.descend names) c = .ok r) files reports ∧
        (scanDirectory fs start c).1 = reports.foldl Report.merge .empty := by
  cases h : fs.node start with
  | error e =>
    refine ⟨[], .nil, fun names => ⟨nofun, fun ⟨⟨⟨n, _, _, h', _⟩, _, _⟩, _⟩ => ?_⟩, [], .nil, ?_⟩
    · cases h.symm.trans h'
    · simp only [scanDirectory, visits, h]
      rfl
  | ok n =>
    obtain ⟨place, -, here⟩ := FileSystem.node_eq_ok.1 h
    have below := wf.at? here
    refine ⟨_, (n.pairwise_leaves below).filter _, fun names => ?_, _,
      (forall₂_filterMap (fun names => Visit.report? fs c (.file (start.descend names)))
        (n.leaves c.scan)).imp fun names r reported => (Visit.report?_file.1 reported).2,
      scanDirectory_report h⟩
    rw [List.mem_filter]
    exact isSome_report?_iff h below

theorem onePage_scanned :
    onePage.root.WellFormed ∧
      ∃ files : List (List FileName), [index] ∈ files ∧
        ∃ reports,
          List.Forall₂ (fun names r => scanFile onePage ((slashes 0).descend names) {} = .ok r)
            files reports ∧
          (scanDirectory onePage (slashes 0) {}).1 = reports.foldl Report.merge .empty := by
  obtain ⟨files, -, selected, reports⟩ :=
    scanDirectory_merges_candidates onePage_wellFormed (slashes 0) {}
  exact ⟨onePage_wellFormed, files, (selected _).2 ⟨candidate_slashes (by decide), rfl⟩, reports⟩

theorem not_merges_every_candidate :
    ¬∃ files : List (List FileName), files.Pairwise (· < ·) ∧
      (∀ names, names ∈ files ↔ Candidate onePage (slashes 4090) {} names) ∧
      ∃ reports,
        List.Forall₂ (fun names r => scanFile onePage ((slashes 4090).descend names) {} = .ok r)
          files reports ∧
        (scanDirectory onePage (slashes 4090) {}).1 = reports.foldl Report.merge .empty := by
  rintro ⟨files, -, candidates, reports, scanned, -⟩
  have member := (candidates _).2 (candidate_slashes (by decide))
  obtain ⟨r, read⟩ := exists_of_forall₂ scanned member
  exact Bool.eq_false_iff.1 (not_tooLong_of_scanFile read) (tooLong_page (by decide))

end WcagAudit
