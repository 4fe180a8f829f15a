import WcagAudit.Proofs.Json.RoundTrip
import WcagAudit.Proofs.Text.Utf8
import WcagAudit.Proofs.Time.RoundTrip
import WcagAudit.Proofs.Uuid
import WcagAudit.Report.Format
import WcagAudit.Report.Json

namespace WcagAudit

namespace Json

theorem optional?_ofOption {read : Json → Option α} {write : α → Json} {o : Option α}
    (back : ∀ a ∈ o, read (write a) = some a) (value : ∀ a, write a ≠ null) :
    optional? read (some (ofOption write o)) = some o := by
  cases o with
  | none => rfl
  | some a =>
    rw [ofOption, optional?]
    · rw [back a rfl, Option.map_some]
    · exact value a

theorem exists_of_mem_optional? {read : Json → Option α} {field : Option Json} {o : Option α}
    (h : optional? read field = some o) : ∀ a ∈ o, ∃ x, read x = some a := by
  rintro a rfl
  unfold optional? at h
  split at h
  · cases h
  · cases h
  · next x _ => exact ⟨x, by simpa using h⟩

theorem list?_list {read : Json → Option α} {write : α → Json} {items : List α}
    (back : ∀ a ∈ items, read (write a) = some a) : list? read (list write items) = some items := by
  rw [list, list?]
  induction items with
  | nil => rfl
  | cons a items ih =>
    obtain ⟨first, later⟩ := List.forall_mem_cons.1 back
    rw [List.map_cons, List.mapM_cons, first, ih later]
    rfl

theorem exists_of_mem_list? {read : Json → Option α} {j : Json} {items : List α}
    (h : list? read j = some items) : ∀ a ∈ items, ∃ x, read x = some a := by
  cases j with
  | array xs =>
    rw [list?] at h
    induction xs generalizing items with
    | nil =>
      cases h
      exact nofun
    | cons x xs ih =>
      simp only [List.mapM_cons, Option.bind_eq_bind, Option.bind_eq_some_iff] at h
      obtain ⟨a, first, later, rest, built⟩ := h
      cases built
      exact List.forall_mem_cons.2 ⟨⟨x, first⟩, ih rest⟩
  | _ => cases h

theorem count?_nat {n : Nat} (h : n < Nat.pow 2 64) : count? (nat n) = some n := by
  rw [nat, count?, Numeral.toNat?_ofNat, Option.bind_some, if_pos h]

theorem Proper.list {write : α → Json} {items : List α} (h : ∀ a ∈ items, (write a).Proper) :
    (list write items).Proper :=
  .array (List.forall_mem_map.2 h)

theorem Proper.ofOption {write : α → Json} (h : ∀ a, (write a).Proper) (o : Option α) :
    (ofOption write o).Proper := by
  cases o with
  | none => exact .null
  | some a => exact h a

end Json

theorem Level.ofJson?_toJson (l : Level) : ofJson? l.toJson = some l := by cases l <;> decide

theorem Severity.ofJson?_toJson (s : Severity) : ofJson? s.toJson = some s := by cases s <;> decide

theorem Impact.ofJson?_toJson (i : Impact) : ofJson? i.toJson = some i := rfl

theorem Path.ofJson?_toJson {p : Path} (h : ∃ s, p = .ofString s) : ofJson? p.toJson = some p := by
  obtain ⟨s, rfl⟩ := h
  rw [toJson, display_ofString]
  rfl

theorem Path.exists_ofString_of_ofJson? {j : Json} {p : Path} (h : ofJson? j = some p) :
    ∃ s, p = .ofString s := by
  obtain ⟨s, -, rfl⟩ := Option.map_eq_some_iff.1 h
  exact ⟨s, rfl⟩

theorem Uuid.ofJson?_toJson (u : Uuid) : ofJson? u.toJson = some u := by
  simp [ofJson?, toJson, Json.string?, ofText?_text]

theorem Instant.ofJson?_toJson {i : Instant} (h : i.date.inRange) : ofJson? i.toJson = some i := by
  simp [ofJson?, toJson, Json.string?, ofText?_text h]

theorem Instant.inRange_of_ofJson? {j : Json} {i : Instant} (h : ofJson? j = some i) :
    i.date.inRange := by
  obtain ⟨s, -, read⟩ := Option.bind_eq_some_iff.1 h
  exact inRange_of_ofText? read

namespace Verdict

theorem ofJson?_toJson {v : Verdict} (text : ∀ p ∈ v.file, ∃ s, p = .ofString s) :
    ofJson? v.toJson = some v := by
  have fields : v.toJson.record? fieldNames =
      some [some (.string v.ruleId), some (.string v.ruleName),
        some (.ofOption Path.toJson v.file), some (.bool v.passed), some (.string v.criterion),
        some v.level.toJson] := rfl
  have file := Json.optional?_ofOption (fun p hp => Path.ofJson?_toJson (text p hp)) nofun
  rw [ofJson?, fields]
  simp only [bind, Option.bind, pure, Json.required?, Json.string?, Json.bool?, file,
    v.level.ofJson?_toJson]

theorem text_of_ofJson? {j : Json} {v : Verdict} (h : ofJson? j = some v) :
    ∀ p ∈ v.file, ∃ s, p = .ofString s := by
  unfold ofJson? at h
  cases fields : j.record? fieldNames with
  | none => rw [fields] at h; cases h
  | some values =>
    rw [fields] at h
    simp only [Option.bind_eq_bind, Option.bind_some] at h
    split at h
    · simp only [Option.bind_eq_some_iff] at h
      obtain ⟨_, -, _, -, file, read, _, -, _, -, _, -, built⟩ := h
      cases built
      intro p hp
      obtain ⟨x, read⟩ := Json.exists_of_mem_optional? read p hp
      exact Path.exists_ofString_of_ofJson? read
    · cases h

theorem proper_toJson (v : Verdict) : v.toJson.Proper := by
  have file : (Json.ofOption Path.toJson v.file).Proper := .ofOption (fun p => .string _) v.file
  have level : v.level.toJson.Proper := .string _
  apply Json.Proper.object
  simp [Json.Proper.string, Json.Proper.bool, file, level]

end Verdict

namespace Finding

theorem ofJson?_toJson {f : Finding} (text : ∀ p ∈ f.file, ∃ s, p = .ofString s)
    (h : f.stamp.createdAt.date.inRange) : ofJson? f.toJson = some f := by
  have fields : f.toJson.record? fieldNames = some [some f.stamp.id.toJson, some (.string f.source),
      some (.string f.ruleId), some (.string f.ruleName), some f.severity.toJson,
      some (.string f.message), some (.string f.category), some (.ofOption Path.toJson f.file),
      some f.stamp.createdAt.toJson, some (.ofOption .string f.criterion),
      some (.ofOption Level.toJson f.level), some (.ofOption Impact.toJson f.impact)] := rfl
  have file := Json.optional?_ofOption (fun p hp => Path.ofJson?_toJson (text p hp)) nofun
  have criterion : Json.optional? Json.string? (some (.ofOption .string f.criterion)) = _ :=
    Json.optional?_ofOption (fun _ _ => rfl) nofun
  have level : Json.optional? Level.ofJson? (some (.ofOption Level.toJson f.level)) = _ :=
    Json.optional?_ofOption (fun l _ => l.ofJson?_toJson) nofun
  have impact : Json.optional? Impact.ofJson? (some (.ofOption Impact.toJson f.impact)) = _ :=
    Json.optional?_ofOption (fun i _ => i.ofJson?_toJson) nofun
  rw [ofJson?, fields]
  simp only [bind, Option.bind, pure, Json.required?, Json.string?, file, criterion, level, impact,
    f.stamp.id.ofJson?_toJson, Instant.ofJson?_toJson h, f.severity.ofJson?_toJson]

theorem proper_toJson (f : Finding) : f.toJson.Proper := by
  have file : (Json.ofOption Path.toJson f.file).Proper := .ofOption (fun _ => .string _) f.file
  have criterion : (Json.ofOption .string f.criterion).Proper :=
    .ofOption (fun _ => .string _) f.criterion
  have level : (Json.ofOption Level.toJson f.level).Proper := .ofOption (fun _ => .string _) f.level
  have impact : (Json.ofOption Impact.toJson f.impact).Proper :=
    .ofOption (fun i => .object (by simp [Json.Proper.bool])) f.impact
  apply Json.Proper.object
  simp [Uuid.toJson, Instant.toJson, Severity.toJson, Json.Proper.string, file, criterion, level,
    impact]

theorem writable_of_ofJson? {j : Json} {f : Finding} (h : ofJson? j = some f) :
    f.stamp.createdAt.date.inRange ∧ ∀ p ∈ f.file, ∃ s, p = .ofString s := by
  unfold ofJson? at h
  cases fields : j.record? fieldNames with
  | none => rw [fields] at h; cases h
  | some values =>
    rw [fields] at h
    simp only [Option.bind_eq_bind, Option.bind_some] at h
    split at h
    · simp only [Option.bind_eq_some_iff] at h
      obtain ⟨_, -, createdAt, instant, _, -, _, -, _, -, _, -, _, -, _, -, file, path, _, -, _, -, _, -,
        built⟩ := h
      cases built
      constructor
      · obtain ⟨j, -, instant⟩ := Option.bind_eq_some_iff.1 instant
        exact Instant.inRange_of_ofJson? instant
      · intro p hp
        obtain ⟨x, path⟩ := Json.exists_of_mem_optional? path p hp
        exact Path.exists_ofString_of_ofJson? path
    · cases h

end Finding

namespace Findings

theorem ofJson?_toJson {findings : List Finding}
    (text : ∀ f ∈ findings, ∀ p ∈ f.file, ∃ s, p = .ofString s)
    (h : ∀ f ∈ findings, f.stamp.createdAt.date.inRange) :
    ofJson? (toJson findings) = some findings := by
  have fields : (toJson findings).record? ["findings"] =
      some [some (.list Finding.toJson findings)] := rfl
  rw [ofJson?, fields]
  exact Json.list?_list fun f hf => Finding.ofJson?_toJson (text f hf) (h f hf)

theorem exists_of_ofJson? {j : Json} {findings : List Finding} (h : ofJson? j = some findings) :
    ∀ f ∈ findings, ∃ x, Finding.ofJson? x = some f := by
  unfold ofJson? at h
  cases fields : j.record? ["findings"] with
  | none => rw [fields] at h; cases h
  | some values =>
    rw [fields] at h
    simp only [Option.bind_eq_bind, Option.bind_some] at h
    split at h
    · obtain ⟨items, -, read⟩ := Option.bind_eq_some_iff.1 h
      exact Json.exists_of_mem_list? read
    · cases h

end Findings

namespace Report

variable {r : Report}

theorem mem_paths {p : Path} :
    p ∈ r.paths ↔ (∃ v ∈ r.verdicts, p ∈ v.file) ∨ ∃ f ∈ r.findings, p ∈ f.file := by
  simp [paths]

theorem ofJson?_toJson (text : ∀ p ∈ r.paths, ∃ s, p = .ofString s)
    (h : ∀ f ∈ r.findings, f.stamp.createdAt.date.inRange) : ofJson? r.toJson = some r := by
  have fields : r.toJson.record? ["files_scanned", "verdicts", "findings"] =
      some [some (.nat r.filesScanned.toNat), some (.list Verdict.toJson r.verdicts),
        some (Findings.toJson r.findings)] := rfl
  have files : Json.count? (.nat r.filesScanned.toNat) = some r.filesScanned.toNat :=
    Json.count?_nat r.filesScanned.toNat_lt
  have verdicts : Json.list? Verdict.ofJson? (.list Verdict.toJson r.verdicts) = some r.verdicts :=
    Json.list?_list fun v hv =>
      Verdict.ofJson?_toJson fun p hp => text p (mem_paths.2 (.inl ⟨v, hv, hp⟩))
  have findings : Findings.ofJson? (Findings.toJson r.findings) = some r.findings :=
    Findings.ofJson?_toJson (fun f hf p hp => text p (mem_paths.2 (.inr ⟨f, hf, hp⟩))) h
  rw [ofJson?, fields]
  simp only [bind, Option.bind, pure, Json.required?, files, verdicts, findings, Nat.toUInt64_eq,
    UInt64.ofNat_toNat]

theorem proper_toJson (r : Report) : r.toJson.Proper := by
  have files : (Json.nat r.filesScanned.toNat).Proper := .number (Numeral.proper_ofNat _)
  have verdicts : (Json.list Verdict.toJson r.verdicts).Proper := .list fun v _ => v.proper_toJson
  have findings : (Json.list Finding.toJson r.findings).Proper := .list fun f _ => f.proper_toJson
  apply Json.Proper.object
  simp [Findings.toJson, files, verdicts, Json.Proper.object, findings]

theorem exists_of_ofJson? {j : Json} (h : ofJson? j = some r) :
    (∀ v ∈ r.verdicts, ∃ x, Verdict.ofJson? x = some v) ∧
      ∀ f ∈ r.findings, ∃ x, Finding.ofJson? x = some f := by
  unfold ofJson? at h
  cases fields : j.record? ["files_scanned", "verdicts", "findings"] with
  | none => rw [fields] at h; cases h
  | some values =>
    rw [fields] at h
    simp only [Option.bind_eq_bind, Option.bind_some] at h
    split at h
    · simp only [Option.bind_eq_some_iff] at h
      obtain ⟨_, -, verdicts, judged, findings, told, built⟩ := h
      obtain ⟨_, -, judged⟩ := Option.bind_eq_some_iff.1 judged
      obtain ⟨_, -, told⟩ := Option.bind_eq_some_iff.1 told
      cases built
      exact ⟨Json.exists_of_mem_list? judged, Findings.exists_of_ofJson? told⟩
    · cases h

theorem writable_of_ofJson? {j : Json} (h : ofJson? j = some r) :
    (∀ p ∈ r.paths, ∃ s, p = .ofString s) ∧ ∀ f ∈ r.findings, f.stamp.createdAt.date.inRange := by
  obtain ⟨verdicts, findings⟩ := exists_of_ofJson? h
  constructor
  · intro p hp
    obtain ⟨v, hv, hp⟩ | ⟨f, hf, hp⟩ := mem_paths.1 hp
    · obtain ⟨x, read⟩ := verdicts v hv
      exact Verdict.text_of_ofJson? read p hp
    · obtain ⟨x, read⟩ := findings f hf
      exact (Finding.writable_of_ofJson? read).2 p hp
  · intro f hf
    obtain ⟨x, read⟩ := findings f hf
    exact (Finding.writable_of_ofJson? read).1

theorem render_json_eq_ok {s : String} : r.render .json = .ok s ↔
    (∀ p ∈ r.paths, ∃ s, p = .ofString s) ∧ s = String.ofList r.toJson.pretty := by
  have text : r.paths.all Path.isText ↔ ∀ p ∈ r.paths, ∃ s, p = .ofString s := by
    rw [List.all_eq_true]
    exact forall₂_congr fun p _ => Path.isText_iff
  rw [render, ← text]
  split
  · next all => simp [all, eq_comm]
  · next none => simp [none]

theorem ofJsonText?_pretty (text : ∀ p ∈ r.paths, ∃ s, p = .ofString s)
    (h : ∀ f ∈ r.findings, f.stamp.createdAt.date.inRange) :
    ofJsonText? r.toJson.pretty = some r := by
  rw [ofJsonText?, Json.parse?_pretty r.proper_toJson, Option.bind_some, ofJson?_toJson text h]

/-- A report whose paths are text has a JSON text, and that is read as the report, at least if its
findings are from years that timestamps can have, such as those of four digits; a report that was read
has no other findings and no other paths.  So what is read from the text of a report that was read has
the same text. -/
theorem json_round_trip :
    (∀ r : Report, (∀ p ∈ r.paths, ∃ s, p = .ofString s) →
      (∀ f ∈ r.findings, f.stamp.createdAt.date.inRange) →
      ∃ s, r.render .json = .ok s ∧ ofJsonText? s.toList = some r) ∧
    ∀ (t : List Char) (r : Report), ofJsonText? t = some r →
      ∃ s, r.render .json = .ok s ∧ ofJsonText? s.toList = some r ∧
        (ofJsonText? s.toList).map (·.render .json) = some (.ok s) := by
  have back (r : Report) (text : ∀ p ∈ r.paths, ∃ s, p = .ofString s)
      (years : ∀ f ∈ r.findings, f.stamp.createdAt.date.inRange) :
      ∃ s, r.render .json = .ok s ∧ ofJsonText? s.toList = some r := by
    refine ⟨_, render_json_eq_ok.2 ⟨text, rfl⟩, ?_⟩
    rw [String.toList_ofList, ofJsonText?_pretty text years]
  refine ⟨back, fun t r read => ?_⟩
  obtain ⟨j, -, read⟩ := Option.bind_eq_some_iff.1 read
  obtain ⟨text, years⟩ := writable_of_ofJson? read
  obtain ⟨s, written, again⟩ := back r text years
  exact ⟨s, written, again, by rw [again, Option.map_some, written]⟩

def escapes : Finding := { Finding.new "\t\"\\" .error "\x00\n" with file := some (.ofString "caf\u00e9.html") }

theorem json_round_trip_escapes :
    (∀ p ∈ Report.paths { filesScanned := 2, findings := [escapes] }, ∃ s, p = .ofString s) ∧
      (∀ f ∈ [escapes], f.stamp.createdAt.date.inRange) ∧
      ∃ s, render { filesScanned := 2, findings := [escapes] } .json = .ok s ∧
        ofJsonText? s.toList = some { filesScanned := 2, findings := [escapes] } := by
  have text : ∀ p ∈ Report.paths { filesScanned := 2, findings := [escapes] },
      ∃ s, p = .ofString s := by
    intro p hp
    exact ⟨_, List.mem_singleton.1 hp⟩
  have inRange : ∀ f ∈ [escapes], f.stamp.createdAt.date.inRange := by
    intro f hf
    cases List.mem_singleton.1 hf
    decide
  exact ⟨text, inRange, json_round_trip.1 _ text inRange⟩

end Report

end WcagAudit
