import WcagAudit.Proofs.Scan.Pairing
import WcagAudit.Report.Format

namespace WcagAudit

/-- The lines of a text.  What stands behind the last line feed is a line unless it is empty. -/
def textLines (t : List Char) : List (List Char) :=
  let pieces := piecesBy (· == '\n') t
  if pieces.getLast? = some [] then pieces.dropLast else pieces

def lastLine? (t : List Char) : Option (List Char) := (textLines t).getLast?

theorem lastLine?_of_ends (before : List Char) {line : List Char} (h : '\n' ∉ line) :
    lastLine? (before ++ '\n' :: (line ++ ['\n'])) = some line := by
  have whole : piecesBy (· == '\n') line = [line] :=
    piecesBy_of_forall_not fun c hc feed => h (beq_iff_eq.1 feed ▸ hc)
  have pieces : piecesBy (· == '\n') (before ++ '\n' :: (line ++ ['\n'])) =
      piecesBy (· == '\n') before ++ [line] ++ [[]] := by
    rw [piecesBy_append rfl, piecesBy_append rfl, whole, List.append_assoc]
    rfl
  rw [lastLine?, textLines, pieces, List.getLast?_concat, if_pos rfl, List.dropLast_concat,
    List.getLast?_concat]

namespace Report

variable {r : Report}

theorem toList_toText (r : Report) :
    r.toText.toList = r.lines.flatMap fun line => line.toList ++ ['\n'] := by
  rw [toText, String.toList_join, List.flatMap_map]
  simp only [String.toList_append]
  rfl

theorem lastLine?_toText {front : List String} {last : String} (h : r.lines = front ++ [last])
    (nonempty : front ≠ []) (noFeed : '\n' ∉ last.toList) :
    lastLine? r.toText.toList = some last.toList := by
  obtain ⟨front, line, rfl⟩ : ∃ others line, front = others ++ [line] :=
    ⟨_, _, (List.dropLast_concat_getLast nonempty).symm⟩
  have text : r.toText.toList =
      (front.flatMap (fun l => l.toList ++ ['\n']) ++ line.toList) ++
        '\n' :: (last.toList ++ ['\n']) := by
    rw [toList_toText, h]
    simp
  rw [text]
  exact lastLine?_of_ends _ noFeed

theorem lastLine?_of_verdicts (h : r.verdicts ≠ []) :
    lastLine? r.toText.toList = some (resultLine r).toList := by
  obtain ⟨front, body⟩ : ∃ front, r.bodyLines = front ++ [resultLine r] := by
    unfold bodyLines
    split
    · next none => exact absurd none h
    · exact ⟨_, rfl⟩
  have noFeed : '\n' ∉ (resultLine r).toList := by
    unfold resultLine
    split
    · decide
    · split <;> decide
  have lines : r.lines = ("=== a11ylint WCAG Report ===" :: "" :: front) ++ [resultLine r] := by
    rw [Report.lines, body]
    rfl
  exact lastLine?_toText lines nofun noFeed

theorem lastLine?_of_no_verdicts (h : r.verdicts = []) :
    lastLine? r.toText.toList = some "No rules were evaluated.".toList := by
  have lines : r.lines = ["=== a11ylint WCAG Report ===", "", s!"Files scanned: {r.filesScanned}"] ++
      ["No rules were evaluated."] := by
    rw [Report.lines, bodyLines, h]
    rfl
  exact lastLine?_toText lines nofun (by decide)

theorem verdicts_ne_nil_of_scanned (h : Scanned r) (findings : r.findings ≠ []) :
    r.verdicts ≠ [] := by
  -- The findings come with the failed verdicts, one by one.
  have paired := h.paired.toldBy
  intro none
  rw [failed, none] at paired
  cases hf : r.findings with
  | nil => exact findings hf
  | cons f fs => rw [hf] at paired; cases paired

def blockedLine : List Char := "RESULT: RELEASE BLOCKED (errors found)".toList

/-- The last line says that the release is blocked exactly if there is an error among the findings,
and else whether there is any finding, provided that no finding comes without a verdict.  This is so
in every report of scans. -/
theorem lastLine?_tells_result (r : Report) :
    (r.blocksRelease ↔ ∃ f ∈ r.findings, f.severity = .error) ∧
    (∃ s, r.render .text = .ok s ∧ ((r.findings ≠ [] → r.verdicts ≠ []) →
      (lastLine? s.toList = some blockedLine ↔ r.blocksRelease) ∧
      (¬r.blocksRelease → r.findings ≠ [] →
        lastLine? s.toList = some "RESULT: PASS WITH WARNINGS".toList) ∧
      (r.findings = [] → r.verdicts ≠ [] → lastLine? s.toList = some "RESULT: PASS".toList))) ∧
    (Scanned r → r.findings ≠ [] → r.verdicts ≠ []) := by
  refine ⟨blocksRelease_iff, ⟨_, rfl, fun told => ?_⟩, verdicts_ne_nil_of_scanned⟩
  by_cases judged : r.verdicts = []
  · have findings : r.findings = [] := by
      by_contra some
      exact told some judged
    have passes : ¬r.blocksRelease := by simp [blocksRelease_iff, findings]
    refine ⟨?_, fun _ some => absurd findings some, fun _ some => absurd judged some⟩
    rw [lastLine?_of_no_verdicts judged]
    exact ⟨fun same => absurd (Option.some.inj same) (by decide), fun blocks => absurd blocks passes⟩
  · rw [lastLine?_of_verdicts judged]
    refine ⟨⟨fun same => ?_, fun blocks => ?_⟩, fun passes some => ?_, fun none _ => ?_⟩
    · by_contra passes
      rw [resultLine, if_neg passes] at same
      split at same <;> exact absurd same (by decide)
    · rw [resultLine, if_pos blocks]
      rfl
    · rw [resultLine, if_neg passes, if_neg (by simpa using some)]
    · have passes : ¬r.blocksRelease := by simp [blocksRelease_iff, none]
      rw [resultLine, if_neg passes, none]
      rfl

theorem bare_image_blocked_at_end :
    let r := scanMarkup (some (.ofString "a.html")) "<img src>".toList .aa
    Scanned r ∧ (r.findings ≠ [] → r.verdicts ≠ []) ∧ r.blocksRelease ∧
      ∃ s, r.render .text = .ok s ∧ lastLine? s.toList = some blockedLine := by
  intro r
  have scanned : Scanned r := .markup _ _ _
  have blocks : r.blocksRelease :=
    blocksRelease_scanMarkup_iff.2 ⟨Rule.takes_iff.1 (by decide), .altText, rfl, by decide +kernel⟩
  obtain ⟨-, ⟨s, rendered, last⟩, told⟩ := lastLine?_tells_result r
  exact ⟨scanned, told scanned, blocks, s, rendered, (last (told scanned)).1.2 blocks⟩

theorem lone_error_not_at_end :
    ({ findings := [.new "r" .error "m"] } : Report).blocksRelease ∧
      ∃ s, render { findings := [.new "r" .error "m"] } .text = .ok s ∧
        lastLine? s.toList ≠ some blockedLine := by
  refine ⟨rfl, _, rfl, ?_⟩
  rw [lastLine?_of_no_verdicts rfl]
  decide

end Report
end WcagAudit
