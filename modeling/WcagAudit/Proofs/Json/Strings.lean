import WcagAudit.Json.Parser
import WcagAudit.Proofs.Text.Digits

namespace WcagAudit.Json

theorem ofHex_control (n : Nat) (h : n < 32) :
    ofHex ['0', '0', (n / 16).digitChar, (n % 16).digitChar] = n := by
  have high := hexValue_digitChar ⟨n / 16, by omega⟩
  have low := hexValue_digitChar ⟨n % 16, by omega⟩
  have zero : hexValue '0' = 0 := rfl
  simp only at high low
  simp only [ofHex, List.foldl_cons, List.foldl_nil, high, low, zero]
  omega

theorem charsOfPieces?_unit {n : Nat} (h : n < 32) (pieces : List StringPiece) :
    charsOfPieces? (.unit n :: pieces) = (charsOfPieces? pieces).map (Char.ofNat n :: ·) := by
  have notHigh : isHighSurrogate n = false := by simp [isHighSurrogate]; omega
  have notLow : isLowSurrogate n = false := by simp [isLowSurrogate]; omega
  cases pieces with
  | nil => simp [charsOfPieces?, notHigh, notLow]
  | cons piece pieces => cases piece <;> simp [charsOfPieces?, notHigh, notLow]

theorem stringPieces_plain {c : Char} (quote : c ≠ '"') (backslash : c ≠ '\\') (h : 32 ≤ c.toNat)
    (t : List Char) :
    stringPieces (c :: t) = (stringPieces t).map fun (pieces, rest) => (.char c :: pieces, rest) := by
  rw [stringPieces.eq_def]
  split
  · next text => cases text
  · next text => exact absurd (List.cons.inj text).1 quote
  · next text => exact absurd (List.cons.inj text).1 backslash
  · next text => exact absurd (List.cons.inj text).1 backslash
  · next text =>
    obtain ⟨rfl, rfl⟩ := List.cons.inj text
    rw [if_neg (by omega)]

theorem exists_piece (c : Char) : ∃ piece : StringPiece,
    (∀ t, stringPieces (escape c ++ t) =
      (stringPieces t).map fun (pieces, rest) => (piece :: pieces, rest)) ∧
    ∀ pieces, charsOfPieces? (piece :: pieces) = (charsOfPieces? pieces).map (c :: ·) := by
  by_cases named : c ∈ ['"', '\\', '\x08', '\t', '\n', '\x0c', '\r']
  · simp only [List.mem_cons, List.not_mem_nil, or_false] at named
    obtain rfl | rfl | rfl | rfl | rfl | rfl | rfl := named <;>
      exact ⟨.char _, fun _ => rfl, fun _ => rfl⟩
  · simp only [List.mem_cons, List.not_mem_nil, or_false, not_or] at named
    obtain ⟨quote, backslash, others⟩ := named
    by_cases control : c.toNat < 32
    · have high := isHexDigit_digitChar ⟨c.toNat / 16, by omega⟩
      have low := isHexDigit_digitChar ⟨c.toNat % 16, by omega⟩
      have zero : isHexDigit '0' = true := rfl
      simp only at high low
      refine ⟨.unit c.toNat, fun t => ?_, fun pieces => ?_⟩
      · simp [escape, quote, backslash, others, control, stringPieces, high, low, zero,
          ofHex_control c.toNat control]
      · rw [charsOfPieces?_unit control, Char.ofNat_toNat]
    · have plain : escape c = [c] := by simp [escape, quote, backslash, others, control]
      refine ⟨.char c, fun t => ?_, fun _ => rfl⟩
      rw [plain]
      exact stringPieces_plain quote backslash (by omega) t

theorem stringPieces_escaped (s rest : List Char) :
    ∃ pieces, stringPieces (s.flatMap escape ++ '"' :: rest) = some (pieces, rest) ∧
      charsOfPieces? pieces = some s := by
  induction s with
  | nil => exact ⟨[], rfl, rfl⟩
  | cons c s ih =>
    obtain ⟨pieces, read, chars⟩ := ih
    obtain ⟨piece, reads, stands⟩ := exists_piece c
    refine ⟨piece :: pieces, ?_, ?_⟩
    · rw [List.flatMap_cons, List.append_assoc, reads, read]
      rfl
    · rw [stands, chars]
      rfl

theorem stringBody?_escaped (s : String) (rest : List Char) :
    stringBody? (s.toList.flatMap escape ++ '"' :: rest) = some (some s, rest) := by
  obtain ⟨pieces, read, chars⟩ := stringPieces_escaped s.toList rest
  simp [stringBody?, read, chars]

theorem quoted_append (s : String) (rest : List Char) :
    quoted s ++ rest = '"' :: (s.toList.flatMap escape ++ '"' :: rest) := by
  simp [quoted]

end WcagAudit.Json
