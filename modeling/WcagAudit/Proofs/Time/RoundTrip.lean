import WcagAudit.Proofs.Text.Digits
import WcagAudit.Time.Instant

namespace WcagAudit.Instant

section

variable {ds rest : List Char}

theorem number?_run {width : Nat} (nonempty : ds ≠ []) (h : ∀ c ∈ ds, c.isDigit)
    (fits : ds.length ≤ width) (ends : ds.length = width ∨ ∀ c ∈ rest.head?, ¬c.isDigit) :
    number? width (ds ++ rest) = some (ofDecimal ds, rest) := by
  have run : ((ds ++ rest).take width).takeWhile Char.isDigit = ds := by
    rw [List.take_append, List.take_of_length_le fits]
    apply takeWhile_run h
    intro c hc
    obtain full | ends := ends
    · simp [full] at hc
    · rw [List.head?_take] at hc
      split at hc
      · cases hc
      · exact ends c hc
  unfold number?
  rw [run]
  split
  · exact absurd rfl nonempty
  · rw [List.drop_left]

theorem trimStart_run (nonempty : ds ≠ []) (h : ∀ c ∈ ds, c.isDigit) :
    trimStart (ds ++ rest) = ds ++ rest := by
  cases ds with
  | nil => exact absurd rfl nonempty
  | cons d ds => exact List.dropWhile_cons_of_neg (not_isBlank_of_isDigit (h d List.mem_cons_self))

theorem field?_padded {n : Nat} (h : n < 100) (rest : List Char) :
    field? (toDecimalPadded 2 n ++ rest) = some (n, rest) := by
  have digits : ∀ c ∈ toDecimalPadded 2 n, c.isDigit := fun _ => isDigit_of_mem_toDecimalPadded
  have length : (toDecimalPadded 2 n).length = 2 := length_toDecimalPadded (by decide) h
  rw [field?, trimStart_run (toDecimalPadded_ne_nil 2 n) digits,
    number?_run (toDecimalPadded_ne_nil 2 n) digits (Nat.le_of_eq length) (.inl length),
    ofDecimal_toDecimalPadded]

theorem mark?_cons {c : Char} (h : ¬isBlank c) (rest : List Char) :
    mark? c (c :: rest) = some rest := by
  rw [mark?, trimStart, List.dropWhile_cons_of_neg h]
  exact if_pos rfl

end

theorem year?_yearText (year : Int) (rest : List Char) :
    year? (yearText year ++ '-' :: rest) = some (year, '-' :: rest) := by
  have digits : ∀ c ∈ toDecimalPadded 4 year.natAbs, c.isDigit :=
    fun _ => isDigit_of_mem_toDecimalPadded
  have nonempty := toDecimalPadded_ne_nil 4 year.natAbs
  have ends : ∀ c ∈ ('-' :: rest).head?, ¬c.isDigit := by
    rintro c ⟨⟩
    decide
  have signed : number? (toDecimalPadded 4 year.natAbs ++ '-' :: rest).length
      (toDecimalPadded 4 year.natAbs ++ '-' :: rest) = some (year.natAbs, '-' :: rest) := by
    rw [number?_run nonempty digits (by simp) (.inr ends), ofDecimal_toDecimalPadded]
  unfold yearText
  split
  · next plain =>
    simp only [Bool.and_eq_true, decide_eq_true_eq] at plain
    have fits : year.natAbs < Nat.pow 10 4 := by
      change year.natAbs < 10000
      omega
    have length := length_toDecimalPadded (by decide) fits
    have value : (year.natAbs : Int) = year := by omega
    -- What comes first is a digit, so the reader sees no sign.
    obtain ⟨d, ds, text⟩ := List.exists_cons_of_ne_nil nonempty
    have digit : d.isDigit := digits d (text ▸ List.mem_cons_self)
    rw [year?, trimStart_run nonempty digits]
    split
    · next minus => rw [text] at minus; cases minus; cases digit
    · next plus => rw [text] at plus; cases plus; cases digit
    · rw [number?_run nonempty digits (Nat.le_of_eq length) (.inl length),
        ofDecimal_toDecimalPadded]
      simp only [Option.map_some, value]
  · next outside =>
    simp only [Bool.and_eq_true, decide_eq_true_eq] at outside
    rw [year?, List.cons_append]
    by_cases negative : year < 0
    · have value : -(year.natAbs : Int) = year := by omega
      rw [if_pos negative, trimStart, List.dropWhile_cons_of_neg (by decide)]
      simp only [signed, Option.map_some, value]
    · have value : (year.natAbs : Int) = year := by omega
      rw [if_neg negative, trimStart, List.dropWhile_cons_of_neg (by decide)]
      simp only [signed, Option.map_some, value]

theorem daysIn_le (year : Int) (month : Nat) : daysIn year month ≤ 31 := by
  unfold daysIn
  repeat' split
  all_goals omega

theorem of?_fields (d : Date) : Date.of? d.year d.month d.day = some d := by
  have valid := And.intro (And.intro d.month_pos d.month_le) (And.intro d.day_pos d.day_le)
  rw [Date.of?, dif_pos valid]

theorem date?_text {d : Date} (h : d.inRange) (rest : List Char) :
    date? (yearText d.year ++ ('-' :: (toDecimalPadded 2 d.month ++
      ('-' :: (toDecimalPadded 2 d.day ++ rest))))) = some (d, rest) := by
  have month : d.month < 100 := by have := d.month_le; omega
  have day : d.day < 100 := by have := d.day_le; have := daysIn_le d.year d.month; omega
  have hyphen : ¬isBlank '-' := by decide
  simp only [date?, year?_yearText, mark?_cons hyphen, field?_padded month, field?_padded day,
    of?_fields, h, bind, Option.bind, if_true, pure]

theorem fraction?_padded {width n : Nat} (pos : 0 < width) (narrow : width ≤ 9)
    (fits : n < Nat.pow 10 width) {rest : List Char} (ends : ∀ c ∈ rest.head?, ¬c.isDigit) :
    fraction? ('.' :: toDecimalPadded width n ++ rest) = some (n * Nat.pow 10 (9 - width), rest) := by
  have digits : ∀ c ∈ toDecimalPadded width n, c.isDigit := fun _ => isDigit_of_mem_toDecimalPadded
  have length := length_toDecimalPadded pos fits
  have whole : (toDecimalPadded width n).take 9 = toDecimalPadded width n :=
    List.take_of_length_le (by omega)
  rw [List.cons_append, fraction?, takeWhile_run digits ends, dropWhile_run digits ends]
  split
  · next none => exact absurd none (toDecimalPadded_ne_nil width n)
  · simp only [whole, length, ofDecimal_toDecimalPadded]

theorem fraction?_text {nano : Nat} (h : nano < 1000000000) (rest : List Char) :
    fraction? (fractionText nano ++ 'Z' :: rest) = some (nano, 'Z' :: rest) := by
  have ends : ∀ c ∈ ('Z' :: rest).head?, ¬c.isDigit := by
    rintro c ⟨⟩
    decide
  unfold fractionText
  split
  · next none => rw [none]; rfl
  split
  · have whole : nano / 1000000 * Nat.pow 10 (9 - 3) = nano := by
      change nano / 1000000 * 1000000 = nano
      omega
    have fits : nano / 1000000 < Nat.pow 10 3 := by
      change nano / 1000000 < 1000
      omega
    rw [fraction?_padded (by decide) (by decide) fits ends, whole]
  split
  · have whole : nano / 1000 * Nat.pow 10 (9 - 6) = nano := by
      change nano / 1000 * 1000 = nano
      omega
    have fits : nano / 1000 < Nat.pow 10 6 := by
      change nano / 1000 < 1000000
      omega
    rw [fraction?_padded (by decide) (by decide) fits ends, whole]
  · have whole : nano * Nat.pow 10 (9 - 9) = nano := Nat.mul_one nano
    rw [fraction?_padded (by decide) (by decide) h ends, whole]

theorem clock_of?_fields (i : Instant) :
    Clock.of? (i.second / 3600) (i.second / 60 % 60) (i.second % 60 + i.nano / 1000000000)
      (i.nano % 1000000000) = some ⟨i.second, i.nano, i.second_lt, i.nano_lt, i.leap⟩ := by
  have second_lt := i.second_lt
  have nano_lt := i.nano_lt
  have leap := i.leap
  unfold Clock.of?
  rw [dif_pos (by omega)]
  by_cases whole : i.nano < 1000000000
  · rw [dif_pos (by omega)]
    simp only [Option.some.injEq, Clock.mk.injEq]
    omega
  · rw [dif_neg (by omega), if_pos (by omega)]
    simp only [Option.some.injEq, Clock.mk.injEq]
    omega

theorem clock?_text (i : Instant) (rest : List Char) :
    clock? (toDecimalPadded 2 (i.second / 3600) ++ (':' :: (toDecimalPadded 2 (i.second / 60 % 60) ++
      (':' :: (toDecimalPadded 2 (i.second % 60 + i.nano / 1000000000) ++
        (fractionText (i.nano % 1000000000) ++ 'Z' :: rest)))))) =
      some (⟨i.second, i.nano, i.second_lt, i.nano_lt, i.leap⟩, 'Z' :: rest) := by
  have second_lt := i.second_lt
  have nano_lt := i.nano_lt
  have hour : i.second / 3600 < 100 := by omega
  have minute : i.second / 60 % 60 < 100 := by omega
  have second : i.second % 60 + i.nano / 1000000000 < 100 := by omega
  have nano : i.nano % 1000000000 < 1000000000 := by omega
  have colon : ¬isBlank ':' := by decide
  simp only [clock?, field?_padded hour, field?_padded minute, field?_padded second,
    mark?_cons colon, fraction?_text nano, clock_of?_fields, bind, Option.bind, pure]

theorem ofLocal_utc (i : Instant) :
    ofLocal i.date ⟨i.second, i.nano, i.second_lt, i.nano_lt, i.leap⟩ 0 = i := by
  have second_lt := i.second_lt
  have notBefore : ¬((i.second : Int) - 60 * 0 < 0) := by omega
  have notAfter : (i.second : Int) - 60 * 0 < 86400 := by omega
  have second : (((i.second : Int) - 60 * 0) % 86400).toNat = i.second := by omega
  unfold ofLocal
  simp only [if_neg notBefore, if_pos notAfter, second]

theorem ofText?_text {i : Instant} (h : i.date.inRange) : ofText? i.text = some i := by
  have read := date?_text h ('T' :: (toDecimalPadded 2 (i.second / 3600) ++
    (':' :: (toDecimalPadded 2 (i.second / 60 % 60) ++
      (':' :: (toDecimalPadded 2 (i.second % 60 + i.nano / 1000000000) ++
        (fractionText (i.nano % 1000000000) ++ ['Z'])))))))
  have utc : offset? (trimStart ['Z']) = some (0, []) := by decide
  have separator (t : List Char) : separator? ('T' :: t) = some t := rfl
  have nothing : (trimStart []).isEmpty := rfl
  simp only [ofText?, text, List.append_assoc, List.cons_append, read, separator, clock?_text i [],
    utc, ofLocal_utc, nothing, h, bind, Option.bind, pure]
  rfl

theorem inRange_of_ofText? {t : List Char} {i : Instant} (h : ofText? t = some i) :
    i.date.inRange := by
  simp only [ofText?, Option.bind_eq_bind, Option.bind_eq_some_iff] at h
  obtain ⟨_, -, _, -, _, -, _, -, h⟩ := h
  split at h
  · next ends =>
    cases h
    exact (Bool.and_eq_true_iff.1 ends).2
  · cases h

end WcagAudit.Instant
