import Mathlib.Data.List.Forall2
import WcagAudit.Proofs.Scan.Release
import WcagAudit.Scan.Directory

namespace WcagAudit

/-- The finding tells of this failure: the same rule on the same file, with what the catalogue knows
of the one rule of that name. -/
structure Verdict.ToldBy (v : Verdict) (f : Finding) : Prop where
  ruleId : f.ruleId = v.ruleId
  ruleName : f.ruleName = v.ruleName
  file : f.file = v.file
  criterion : f.criterion = some v.criterion
  level : f.level = some v.level
  rule : ∃ r ∈ Rule.catalogue, r.id = v.ruleId ∧ (∀ s ∈ Rule.catalogue, s.id = v.ruleId → s = r) ∧
    f.severity = r.info.severity ∧ f.category = r.info.category ∧
    f.message = r.info.failureMessage ∧ f.impact = some r.info.impact

def Settled (outcome : Verdict × Option Finding) : Prop :=
  (outcome.2.isSome ↔ outcome.1.passed = false) ∧ ∀ f ∈ outcome.2, outcome.1.ToldBy f

theorem Settled.restamp {v : Verdict} {f : Finding} (h : Settled (v, some f)) (stamp : Stamp) :
    Settled (v, some { f with stamp }) := by
  refine ⟨h.1, fun g hg => ?_⟩
  cases hg
  have told := h.2 f rfl
  exact ⟨told.ruleId, told.ruleName, told.file, told.criterion, told.level, told.rule⟩

namespace Rule

theorem id_injective : ∀ r s : Rule, r.id = s.id → r = s := by
  intro r s
  cases r <;> cases s <;> decide

theorem toldBy_finding (r : Rule) (file : Option Path) (passed : Bool) :
    (r.verdict file passed).ToldBy (r.finding file) where
  ruleId := rfl
  ruleName := rfl
  file := rfl
  criterion := rfl
  level := rfl
  rule := ⟨r, mem_catalogue r, rfl, fun s _ h => id_injective s r h, rfl, rfl, rfl, rfl⟩

theorem settled_evaluate (r : Rule) (file : Option Path) (markup : List Char) :
    Settled (r.evaluate file markup) := by
  unfold Settled evaluate
  cases r.passes markup with
  | true => simp [verdict]
  | false => simpa [verdict] using r.toldBy_finding file false

end Rule

namespace Report

def Paired (r : Report) : Prop :=
  ∃ outcomes : List (Verdict × Option Finding), outcomes.map (·.1) = r.verdicts ∧
    outcomes.filterMap (·.2) = r.findings ∧ ∀ o ∈ outcomes, Settled o

theorem Paired.empty (files : UInt64) : Paired { filesScanned := files } :=
  ⟨[], rfl, rfl, by simp⟩

theorem Paired.record {r : Report} (h : r.Paired) {v : Verdict} {f : Option Finding}
    (ho : Settled (v, f)) : (r.record v f).Paired := by
  obtain ⟨outcomes, hv, hf, hs⟩ := h
  refine ⟨outcomes ++ [(v, f)], by simp [Report.record, hv], ?_, ?_⟩
  · cases f <;> simp [Report.record, hf]
  · intro o h
    rcases List.mem_append.1 h with h | h
    · exact hs o h
    · cases List.mem_singleton.1 h
      exact ho

theorem Paired.merge {r s : Report} (hr : r.Paired) (hs : s.Paired) : (r.merge s).Paired := by
  obtain ⟨outcomes, hv, hf, ho⟩ := hr
  obtain ⟨outcomes', hv', hf', ho'⟩ := hs
  refine ⟨outcomes ++ outcomes', by simp [Report.merge, hv, hv'], by simp [Report.merge, hf, hf'], ?_⟩
  intro o h
  exact (List.mem_append.1 h).elim (ho o) (ho' o)

theorem foldl_record (r : Report) (outcomes : List (Verdict × Option Finding)) :
    outcomes.foldl (fun r o => r.record o.1 o.2) r =
      { r with verdicts := r.verdicts ++ outcomes.map (·.1),
               findings := r.findings ++ outcomes.filterMap (·.2) } := by
  induction outcomes generalizing r with
  | nil => simp
  | cons o outcomes ih =>
    obtain ⟨v, f⟩ := o
    rw [List.foldl_cons, ih]
    cases f <;> simp [Report.record]

theorem Paired.foldl_record {r : Report} (h : r.Paired) {outcomes : List (Verdict × Option Finding)}
    (ho : ∀ o ∈ outcomes, Settled o) : (outcomes.foldl (fun r o => r.record o.1 o.2) r).Paired := by
  induction outcomes generalizing r with
  | nil => exact h
  | cons o outcomes ih =>
    obtain ⟨first, later⟩ := List.forall_mem_cons.1 ho
    exact ih (h.record first) later

theorem Paired.foldl_merge {r : Report} (h : r.Paired) {reports : List Report}
    (hs : ∀ s ∈ reports, s.Paired) : (reports.foldl Report.merge r).Paired := by
  induction reports generalizing r with
  | nil => exact h
  | cons s reports ih =>
    obtain ⟨first, later⟩ := List.forall_mem_cons.1 hs
    exact ih (h.merge first) later

theorem exists_restamped {outcomes : List (Verdict × Option Finding)}
    (h : ∀ o ∈ outcomes, Settled o) (stamp : Nat → Stamp) :
    ∃ outcomes' : List (Verdict × Option Finding),
      outcomes'.map (·.1) = outcomes.map (·.1) ∧
      outcomes'.filterMap (·.2) =
        (outcomes.filterMap (·.2)).mapIdx (fun i f => { f with stamp := stamp i }) ∧
      ∀ o ∈ outcomes', Settled o := by
  induction outcomes generalizing stamp with
  | nil => exact ⟨[], rfl, rfl, h⟩
  | cons o outcomes ih =>
    obtain ⟨first, later⟩ := List.forall_mem_cons.1 h
    obtain ⟨v, f⟩ := o
    cases f with
    | none =>
      obtain ⟨outcomes', hv, hf, hs⟩ := ih later stamp
      exact ⟨(v, none) :: outcomes', by simp [hv], by simpa using hf,
        List.forall_mem_cons.2 ⟨first, hs⟩⟩
    | some f =>
      obtain ⟨outcomes', hv, hf, hs⟩ := ih later fun i => stamp (i + 1)
      refine ⟨(v, some { f with stamp := stamp 0 }) :: outcomes', by simp [hv], ?_, ?_⟩
      · simp [hf, List.mapIdx_cons]
      · exact List.forall_mem_cons.2 ⟨Settled.restamp first _, hs⟩

theorem Paired.stamped {r : Report} (h : r.Paired) (stamp : Nat → Stamp) :
    (r.stamped stamp).Paired := by
  obtain ⟨outcomes, hv, hf, hs⟩ := h
  obtain ⟨outcomes', hv', hf', hs'⟩ := exists_restamped hs stamp
  exact ⟨outcomes', hv'.trans hv, by rw [hf', hf]; rfl, hs'⟩

theorem Paired.toldBy {r : Report} (h : r.Paired) :
    List.Forall₂ Verdict.ToldBy r.failed r.findings := by
  obtain ⟨outcomes, hv, hf, hs⟩ := h
  rw [failed, ← hv, ← hf]
  clear hv hf
  induction outcomes with
  | nil => exact .nil
  | cons o outcomes ih =>
    obtain ⟨⟨some_iff, told⟩, later⟩ := List.forall_mem_cons.1 hs
    obtain ⟨v, f⟩ := o
    cases f with
    | none => simpa [show v.passed = true by simpa using some_iff] using ih later
    | some f =>
      have failed : v.passed = false := by simpa using some_iff
      simpa [failed] using ⟨told f rfl, ih later⟩

end Report

theorem scanMarkup_eq_foldl_record (file : Option Path) (markup : List Char) (level : Level) :
    scanMarkup file markup level =
      ((Rule.catalogue.filter (·.applies file level)).map (·.evaluate file markup)).foldl
        (fun r o => r.record o.1 o.2) { filesScanned := 1 } := by
  rw [Report.foldl_record]
  rfl

theorem paired_scanMarkup (file : Option Path) (markup : List Char) (level : Level) :
    (scanMarkup file markup level).Paired := by
  rw [scanMarkup_eq_foldl_record]
  apply (Report.Paired.empty 1).foldl_record
  intro o ho
  obtain ⟨r, -, rfl⟩ := List.mem_map.1 ho
  exact r.settled_evaluate file markup

theorem paired_scanFile {fs : FileSystem} {p : Path} {c : Config} {r : Report}
    (h : scanFile fs p c = .ok r) : r.Paired := by
  unfold scanFile at h
  cases ht : fs.readText p with
  | error e => simp [ht, bind, Except.bind] at h
  | ok markup =>
    simp only [ht, bind, Except.bind, pure, Except.pure, Except.ok.injEq] at h
    exact h ▸ paired_scanMarkup _ markup c.level

theorem scanFile_of_outcome {fs : FileSystem} {c : Config} {v : Visit} {o : Except Notice Report}
    {r : Report} (h : v.outcome? fs c = some o) (hr : o.toOption = some r) :
    ∃ p, scanFile fs p c = .ok r := by
  cases v with
  | unreadable p e => cases h; cases hr
  | file p =>
    simp only [Visit.outcome?, Option.ite_none_right_eq_some, Option.some.injEq] at h
    obtain ⟨-, rfl⟩ := h
    cases hs : scanFile fs p c with
    | error e => simp [hs, Except.mapError, Except.toOption] at hr
    | ok r' =>
      simp only [hs, Except.mapError, Except.toOption, Option.some.injEq] at hr
      exact ⟨p, hr ▸ hs⟩

theorem paired_scanDirectory (fs : FileSystem) (p : Path) (c : Config) :
    (scanDirectory fs p c).1.Paired := by
  apply (Report.Paired.empty 0).foldl_merge
  intro r hr
  obtain ⟨o, ho, hr⟩ := List.mem_filterMap.1 hr
  obtain ⟨v, -, ho⟩ := List.mem_filterMap.1 ho
  obtain ⟨q, hq⟩ := scanFile_of_outcome ho hr
  exact paired_scanFile hq

/-- The reports of scans, stamped or not and merged in any order. -/
inductive Scanned : Report → Prop
  | empty : Scanned .empty
  | markup (file : Option Path) (markup : List Char) (level : Level) :
    Scanned (scanMarkup file markup level)
  | file {fs : FileSystem} {p : Path} {c : Config} {r : Report} : scanFile fs p c = .ok r → Scanned r
  | directory (fs : FileSystem) (p : Path) (c : Config) : Scanned (scanDirectory fs p c).1
  | stamped {r : Report} (stamp : Nat → Stamp) : Scanned r → Scanned (r.stamped stamp)
  | merge {r s : Report} : Scanned r → Scanned s → Scanned (r.merge s)

theorem Scanned.paired {r : Report} (h : Scanned r) : r.Paired := by
  induction h with
  | empty => exact .empty 0
  | markup file markup level => exact paired_scanMarkup file markup level
  | file h => exact paired_scanFile h
  | directory fs p c => exact paired_scanDirectory fs p c
  | stamped stamp _ ih => exact ih.stamped stamp
  | merge _ _ ihr ihs => exact ihr.merge ihs

/-- The findings of a report tell of its failures, one by one and in order, and of nothing else. -/
theorem findings_pair_with_failed {r : Report} (h : Scanned r) :
    r.findings.length = r.failed.length ∧
    (∀ (i : Nat) v f, r.failed[i]? = some v → r.findings[i]? = some f → v.ToldBy f) ∧
    ∃ outcomes : List (Verdict × Option Finding), outcomes.map (·.1) = r.verdicts ∧
      outcomes.filterMap (·.2) = r.findings ∧
      ∀ o ∈ outcomes, (o.2.isSome ↔ o.1.passed = false) ∧ ∀ f ∈ o.2, o.1.ToldBy f := by
  have told := h.paired.toldBy
  refine ⟨told.length_eq.symm, fun i v f hv hf => ?_, h.paired⟩
  obtain ⟨hi, rfl⟩ := List.getElem?_eq_some_iff.1 hv
  obtain ⟨hi', rfl⟩ := List.getElem?_eq_some_iff.1 hf
  exact (List.forall₂_iff_get.1 told).2 i hi hi'

theorem bare_image_told :
    Scanned ((scanMarkup (some (.ofString "a.html")) "<img src>".toList .aa).merge
      (scanDirectory {} (.ofString ".") {}).1) ∧
    ∃ v f, ((scanMarkup (some (.ofString "a.html")) "<img src>".toList .aa).merge
        (scanDirectory {} (.ofString ".") {}).1).failed[0]? = some v ∧
      ((scanMarkup (some (.ofString "a.html")) "<img src>".toList .aa).merge
        (scanDirectory {} (.ofString ".") {}).1).findings[0]? = some f ∧ v.ToldBy f := by
  have scanned := (Scanned.markup (some (.ofString "a.html")) "<img src>".toList .aa).merge
    (.directory {} (.ofString ".") {})
  have failure : ((scanMarkup (some (.ofString "a.html")) "<img src>".toList .aa).merge
      (scanDirectory {} (.ofString ".") {}).1).failed[0]? =
        some (Rule.altText.verdict (some (.ofString "a.html")) false) := by decide +kernel
  have finding : ((scanMarkup (some (.ofString "a.html")) "<img src>".toList .aa).merge
      (scanDirectory {} (.ofString ".") {}).1).findings[0]? =
        some (Rule.altText.finding (some (.ofString "a.html"))) := by decide +kernel
  exact ⟨scanned, _, _, failure, finding,
    (findings_pair_with_failed scanned).2.1 0 _ _ failure finding⟩

end WcagAudit
