import WcagAudit.Path

namespace WcagAudit

namespace Utf8

theorem toNat_ofNat_of_lt {n : Nat} (h : n < 256) : (UInt8.ofNat n).toNat = n := by
  rw [UInt8.toNat_ofNat', Nat.mod_eq_of_lt h]

theorem ofNat_eq_of_toNat {n : Nat} {b : UInt8} (h : n = b.toNat) : UInt8.ofNat n = b := by
  rw [h, UInt8.ofNat_toNat]

theorem val_ofNat {n : Nat} (h : n.isValidChar) : (Char.ofNat n).val.toNat = n := by
  rw [Char.ofNat, dif_pos h]
  rfl

section

variable {b : UInt8}

theorem first_single (h : b.toNat < 0x80) : first b = ([some (Char.ofNat b.toNat)], none) := by
  simp only [first, if_pos h]

theorem first_of_two (h : 0xC2 ≤ b.toNat) (h' : b.toNat < 0xE0) :
    first b = ([], some ⟨0x80, 0xBF, 0, b.toNat - 0xC0⟩) := by
  simp only [first, if_neg (show ¬b.toNat < 0x80 by omega), if_neg (Nat.not_lt.2 h), if_pos h']

theorem first_of_three (h : 0xE0 ≤ b.toNat) (h' : b.toNat < 0xF0) :
    first b = ([], some ⟨if b.toNat = 0xE0 then 0xA0 else 0x80, if b.toNat = 0xED then 0x9F else 0xBF, 1,
      b.toNat - 0xE0⟩) := by
  simp only [first, if_neg (show ¬b.toNat < 0x80 by omega), if_neg (show ¬b.toNat < 0xC2 by omega),
    if_neg (Nat.not_lt.2 h), if_pos h']

theorem first_of_four (h : 0xF0 ≤ b.toNat) (h' : b.toNat < 0xF5) :
    first b = ([], some ⟨if b.toNat = 0xF0 then 0x90 else 0x80, if b.toNat = 0xF4 then 0x8F else 0xBF, 2,
      b.toNat - 0xF0⟩) := by
  simp only [first, if_neg (show ¬b.toNat < 0x80 by omega), if_neg (show ¬b.toNat < 0xC2 by omega),
    if_neg (show ¬b.toNat < 0xE0 by omega), if_neg (Nat.not_lt.2 h), if_pos h']

theorem first_of_none (h : 0x80 ≤ b.toNat) (h' : b.toNat < 0xC2 ∨ 0xF5 ≤ b.toNat) :
    first b = ([none], none) := by
  simp only [first, if_neg (Nat.not_lt.2 h)]
  rcases h' with low | high
  · rw [if_pos low]
  · rw [if_neg (show ¬b.toNat < 0xC2 by omega), if_neg (show ¬b.toNat < 0xE0 by omega),
      if_neg (show ¬b.toNat < 0xF0 by omega), if_neg (Nat.not_lt.2 high)]

theorem range_cases (b : UInt8) : b.toNat < 0x80 ∨
    (0x80 ≤ b.toNat ∧ (b.toNat < 0xC2 ∨ 0xF5 ≤ b.toNat)) ∨ (0xC2 ≤ b.toNat ∧ b.toNat < 0xE0) ∨
    (0xE0 ≤ b.toNat ∧ b.toNat < 0xF0) ∨ 0xF0 ≤ b.toNat ∧ b.toNat < 0xF5 := by
  omega

end

theorem within_iff {n m least most low low' high high' : Nat} (narrow : low ≤ low') (narrow' : high' ≤ high) :
    ((if n = least then low' else low) ≤ m ∧ m ≤ if n = most then high' else high) ↔
      (low ≤ m ∧ m ≤ high) ∧ (n = least → low' ≤ m) ∧ (n = most → m ≤ high') := by
  split <;> split <;> omega

def Open.Ends : Open → List UInt8 → Char → Prop
  | _, [], _ => False
  | s, b :: bs, c => (s.low ≤ b.toNat ∧ b.toNat ≤ s.high) ∧
      match s.more with
      | 0 => bs = [] ∧ c = Char.ofNat (s.grown b)
      | more + 1 => Open.Ends ⟨0x80, 0xBF, more, s.grown b⟩ bs c

/-- A character is a single byte, or one that opens it and those that end it. -/
inductive Spells : List UInt8 → Char → Prop
  | single {b : UInt8} {c : Char} (h : first b = ([some c], none)) : Spells [b] c
  | several {b : UInt8} {bs : List UInt8} {c : Char} {s : Open} (h : first b = ([], some s))
      (ends : s.Ends bs c) : Spells (b :: bs) c

section

variable {low high more value : Nat} {b : UInt8} {bs : List UInt8} {c : Char}

theorem Open.ends_zero : Ends ⟨low, high, 0, value⟩ (b :: bs) c ↔
    (low ≤ b.toNat ∧ b.toNat ≤ high) ∧ bs = [] ∧ c = Char.ofNat (64 * value + (b.toNat - 0x80)) :=
  Iff.rfl

theorem Open.ends_succ : Ends ⟨low, high, more + 1, value⟩ (b :: bs) c ↔
    (low ≤ b.toNat ∧ b.toNat ≤ high) ∧ Ends ⟨0x80, 0xBF, more, 64 * value + (b.toNat - 0x80)⟩ bs c :=
  Iff.rfl

theorem Open.exists_of_ends {s : Open} (h : s.Ends bs c) : ∃ b rest, bs = b :: rest := by
  cases bs with
  | nil => cases h
  | cons b rest => exact ⟨b, rest, rfl⟩

theorem pieces_of_ends {s : Open} (h : s.Ends bs c) (rest : List UInt8) :
    pieces (some s) (bs ++ rest) = some c :: pieces none rest := by
  induction bs generalizing s with
  | nil => cases h
  | cons b bs ih =>
    obtain ⟨low, high, more, value⟩ := s
    rw [List.cons_append, pieces, next]
    cases more with
    | zero =>
      obtain ⟨inside, rfl, hc⟩ := Open.ends_zero.1 h
      rw [if_pos inside, hc]
      rfl
    | succ more =>
      obtain ⟨inside, ends⟩ := Open.ends_succ.1 h
      rw [if_pos inside]
      exact ih ends

theorem pieces_of_spells (h : Spells bs c) (rest : List UInt8) :
    pieces none (bs ++ rest) = some c :: pieces none rest := by
  cases h with
  | single h => rw [List.cons_append, pieces, h]; rfl
  | several h ends => rw [List.cons_append, pieces, h]; exact pieces_of_ends ends rest

end

theorem spells_utf8EncodeChar (c : Char) : Spells (String.utf8EncodeChar c) c := by
  have valid : c.val.toNat < 0xD800 ∨ 0xDFFF < c.val.toNat ∧ c.val.toNat < 0x110000 := c.valid
  have back : Char.ofNat c.val.toNat = c := Char.ofNat_toNat c
  have byte {n : Nat} (h : n < 256) := toNat_ofNat_of_lt h
  rw [String.utf8EncodeChar]
  generalize c.val.toNat = v at valid back ⊢
  split
  · have lead := byte (show v < 256 by omega)
    exact .single ((first_single (by omega)).trans (by rw [lead, back]))
  · have last := byte (show v % 64 + 128 < 256 by omega)
    split
    · have lead := byte (show v / 64 % 32 + 192 < 256 by omega)
      refine .several (first_of_two (by omega) (by omega)) ?_
      simp only [Open.ends_zero, lead, last]
      exact ⟨by omega, trivial, back.symm.trans (congrArg Char.ofNat (by omega))⟩
    · have second := byte (show v / 64 % 64 + 128 < 256 by omega)
      split
      · have lead := byte (show v / 4096 % 16 + 224 < 256 by omega)
        refine .several (first_of_three (by omega) (by omega)) ?_
        simp only [Open.ends_zero, Open.ends_succ, lead, second, last]
        refine ⟨?_, by omega, trivial, back.symm.trans (congrArg Char.ofNat (by omega))⟩
        split <;> split <;> omega
      · have lead := byte (show v / 262144 % 8 + 240 < 256 by omega)
        have third := byte (show v / 4096 % 64 + 128 < 256 by omega)
        refine .several (first_of_four (by omega) (by omega)) ?_
        simp only [Open.ends_zero, Open.ends_succ, lead, third, second, last]
        refine ⟨?_, by omega, by omega, trivial, back.symm.trans (congrArg Char.ofNat (by omega))⟩
        split <;> split <;> omega

section

variable {b : UInt8} {bs : List UInt8} {c : Char}

theorem utf8EncodeChar_of_single (h : first b = ([some c], none)) : String.utf8EncodeChar c = [b] := by
  obtain range | ⟨range, apart⟩ | ⟨range, range'⟩ | ⟨range, range'⟩ | ⟨range, range'⟩ := range_cases b
  · rw [first_single range] at h
    obtain rfl : Char.ofNat b.toNat = c := by simpa using h
    rw [String.utf8EncodeChar, val_ofNat (.inl (by omega)), if_pos (by omega), UInt8.ofNat_toNat]
  · simp [first_of_none range apart] at h
  · simp [first_of_two range range'] at h
  · simp [first_of_three range range'] at h
  · simp [first_of_four range range'] at h

theorem utf8EncodeChar_of_several {s : Open} (h : first b = ([], some s)) (ends : s.Ends bs c) :
    String.utf8EncodeChar c = b :: bs := by
  obtain range | ⟨range, apart⟩ | ⟨range, range'⟩ | ⟨range, range'⟩ | ⟨range, range'⟩ := range_cases b
  · simp [first_single range] at h
  · simp [first_of_none range apart] at h
  · rw [first_of_two range range'] at h
    obtain rfl := Option.some.inj (Prod.mk.inj h).2
    obtain ⟨d, bs, rfl⟩ := Open.exists_of_ends ends
    obtain ⟨inside, rfl, hc⟩ := Open.ends_zero.1 ends
    rw [hc, String.utf8EncodeChar, val_ofNat (.inl (by omega)), if_neg (by omega), if_pos (by omega),
      ofNat_eq_of_toNat (b := b) (by omega), ofNat_eq_of_toNat (b := d) (by omega)]
  · rw [first_of_three range range'] at h
    obtain rfl := Option.some.inj (Prod.mk.inj h).2
    obtain ⟨d, bs, rfl⟩ := Open.exists_of_ends ends
    obtain ⟨inside, ends⟩ := Open.ends_succ.1 ends
    obtain ⟨e, bs, rfl⟩ := Open.exists_of_ends ends
    obtain ⟨inside', rfl, hc⟩ := Open.ends_zero.1 ends
    -- The narrower ranges behind E0 and ED keep out short forms and surrogates.
    rw [within_iff (by decide) (by decide)] at inside
    rw [hc, String.utf8EncodeChar, val_ofNat (by omega), if_neg (by omega), if_neg (by omega),
      if_pos (by omega), ofNat_eq_of_toNat (b := b) (by omega), ofNat_eq_of_toNat (b := d) (by omega),
      ofNat_eq_of_toNat (b := e) (by omega)]
  · rw [first_of_four range range'] at h
    obtain rfl := Option.some.inj (Prod.mk.inj h).2
    obtain ⟨d, bs, rfl⟩ := Open.exists_of_ends ends
    obtain ⟨inside, ends⟩ := Open.ends_succ.1 ends
    obtain ⟨e, bs, rfl⟩ := Open.exists_of_ends ends
    obtain ⟨inside', ends⟩ := Open.ends_succ.1 ends
    obtain ⟨f, bs, rfl⟩ := Open.exists_of_ends ends
    obtain ⟨inside'', rfl, hc⟩ := Open.ends_zero.1 ends
    rw [within_iff (by decide) (by decide)] at inside
    rw [hc, String.utf8EncodeChar, val_ofNat (by omega), if_neg (by omega), if_neg (by omega),
      if_neg (by omega), ofNat_eq_of_toNat (b := b) (by omega), ofNat_eq_of_toNat (b := d) (by omega),
      ofNat_eq_of_toNat (b := e) (by omega), ofNat_eq_of_toNat (b := f) (by omega)]

end

theorem encode_cons (c : Char) (t : List Char) : encode (c :: t) = String.utf8EncodeChar c ++ encode t :=
  List.flatMap_cons

theorem pieces_encode (t : List Char) : pieces none (encode t) = t.map some := by
  induction t with
  | nil => rfl
  | cons c t ih => rw [encode_cons, pieces_of_spells (spells_utf8EncodeChar c), ih, List.map_cons]

theorem first_cases (b : UInt8) : (∃ c, first b = ([some c], none)) ∨ first b = ([none], none) ∨
    ∃ s, first b = ([], some s) := by
  obtain range | ⟨range, apart⟩ | ⟨range, range'⟩ | ⟨range, range'⟩ | ⟨range, range'⟩ := range_cases b
  · exact .inl ⟨_, first_single range⟩
  · exact .inr (.inl (first_of_none range apart))
  · exact .inr (.inr ⟨_, first_of_two range range'⟩)
  · exact .inr (.inr ⟨_, first_of_three range range'⟩)
  · exact .inr (.inr ⟨_, first_of_four range range'⟩)

theorem text_of_pieces (bs : List UInt8) (t : List Char) :
    (pieces none bs = t.map some → bs = encode t) ∧
    ∀ s, pieces (some s) bs = t.map some →
      ∃ c rest front, t = c :: rest ∧ s.Ends front c ∧ bs = front ++ encode rest := by
  -- Both halves at once: between two characters the machine goes from the one to the other.
  induction bs generalizing t with
  | nil => cases t <;> simp [pieces, encode]
  | cons b bs ih =>
    constructor
    · intro h
      rw [pieces] at h
      obtain ⟨c, single⟩ | gap | ⟨s, opens⟩ := first_cases b
      · rw [single] at h
        cases t with
        | nil => cases h
        | cons d t =>
          obtain ⟨same, h⟩ := List.cons.inj h
          rw [encode_cons, ← Option.some.inj same, utf8EncodeChar_of_single single,
            (ih t).1 h]
          rfl
      · rw [gap] at h
        cases t <;> simp at h
      · rw [opens] at h
        obtain ⟨c, rest, front, rfl, ends, rfl⟩ := (ih t).2 s h
        rw [encode_cons, utf8EncodeChar_of_several opens ends]
        rfl
    · rintro ⟨low, high, more, value⟩ h
      rw [pieces, next] at h
      split at h
      · next inside =>
        cases more with
        | zero =>
          cases t with
          | nil => cases h
          | cons d t =>
            obtain ⟨same, h⟩ := List.cons.inj h
            exact ⟨d, t, [b], rfl, Open.ends_zero.2 ⟨inside, rfl, (Option.some.inj same).symm⟩,
              congrArg (b :: ·) ((ih t).1 h)⟩
        | succ more =>
          obtain ⟨c, rest, front, rfl, ends, rfl⟩ := (ih t).2 _ h
          exact ⟨c, rest, b :: front, rfl, Open.ends_succ.2 ⟨inside, ends⟩, rfl⟩
      · cases t <;> simp at h

theorem mapM_id_eq_some {l : List (Option α)} {t : List α} : l.mapM id = some t ↔ l = t.map some := by
  induction l generalizing t with
  | nil => cases t <;> simp
  | cons o l ih =>
    rw [List.mapM_cons]
    cases o with
    | none => cases t <;> simp
    | some a =>
      cases t with
      | nil => simp [Option.bind_eq_some_iff]
      | cons d t => simpa [Option.bind_eq_some_iff, ih] using and_comm

theorem decode?_eq_some {bs : List UInt8} {t : List Char} : decode? bs = some t ↔ encode t = bs := by
  rw [decode?, mapM_id_eq_some]
  constructor
  · exact fun h => ((text_of_pieces bs t).1 h).symm
  · rintro rfl
    exact pieces_encode t

@[simp] theorem decode?_encode (t : List Char) : decode? (encode t) = some t := decode?_eq_some.2 rfl

@[simp] theorem decodeLossy_encode (t : List Char) : decodeLossy (encode t) = t := by
  rw [decodeLossy, pieces_encode, List.map_map]
  exact List.map_id t

/-- Only the bytes of a character that is cut short are shown as one. -/
example : decodeLossy [0x61, 0xF0, 0x9F, 0x98, 0xC3, 0xA9, 0xED, 0xA0] =
    ['a', '\uFFFD', '\u00e9', '\uFFFD', '\uFFFD'] := by decide

end Utf8

theorem Path.isText_iff {p : Path} : p.isText ↔ ∃ s, p = .ofString s := by
  rw [isText, Option.isSome_iff_exists]
  constructor
  · rintro ⟨t, h⟩
    refine ⟨String.ofList t, ?_⟩
    rw [ofString, Utf8.ofString, String.toList_ofList, Utf8.decode?_eq_some.1 h]
  · rintro ⟨s, rfl⟩
    exact ⟨s.toList, Utf8.decode?_encode s.toList⟩

@[simp] theorem Path.display_ofString (s : String) : (ofString s).display = s := by
  rw [display, ofString, Utf8.ofString, Utf8.decodeLossy_encode, String.ofList_toList]

end WcagAudit
