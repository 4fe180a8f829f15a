import WcagAudit.Proofs.Pattern.Search

namespace WcagAudit.Pattern

variable {α β : Type _} {p q : Pattern}

/-- The pattern reads the texts of the values of a type and no others, whatever stands around them. -/
structure Describes (p : Pattern) (text : α → List Char) : Prop where
  sound {t u : Trail} : p.Reads t u → ∃ a, t.rest = text a ++ u.rest
  complete {t : Trail} {a : α} {rest : List Char} : t.rest = text a ++ rest →
    ∃ u, p.Reads t u ∧ u.rest = rest

namespace Describes

variable {text : α → List Char} {text' : β → List Char}

theorem map (hp : p.Describes text) (f : α → β) (same : ∀ a, text' (f a) = text a)
    (onto : ∀ b, ∃ a, text a = text' b) : p.Describes text' where
  sound h := by
    obtain ⟨a, ha⟩ := hp.sound h
    exact ⟨f a, by rw [same, ha]⟩
  complete {t b rest} h := by
    obtain ⟨a, ha⟩ := onto b
    exact hp.complete (ha ▸ h)

theorem append (hp : p.Describes text) (hq : q.Describes text') :
    (p ++ q).Describes fun ab : α × β => text ab.1 ++ text' ab.2 where
  sound h := by
    obtain ⟨v, hv, hu⟩ := reads_append.1 h
    obtain ⟨a, ha⟩ := hp.sound hv
    obtain ⟨b, hb⟩ := hq.sound hu
    exact ⟨(a, b), by rw [ha, hb, List.append_assoc]⟩
  complete {t ab rest} h := by
    rw [List.append_assoc] at h
    obtain ⟨v, hv, hrest⟩ := hp.complete h
    obtain ⟨u, hu, hrest⟩ := hq.complete hrest
    exact ⟨u, reads_append.2 ⟨v, hv, hu⟩, hrest⟩

theorem optional (hp : p.Describes text) :
    (optional p).Describes fun a : Option α => a.elim [] text where
  sound h := by
    rcases h with h | rfl
    · obtain ⟨a, ha⟩ := hp.sound h
      exact ⟨some a, ha⟩
    · exact ⟨none, rfl⟩
  complete {t a rest} h := by
    cases a with
    | none => exact ⟨t, .inr rfl, h⟩
    | some a =>
      obtain ⟨u, hu, hrest⟩ := hp.complete h
      exact ⟨u, .inl hu, hrest⟩

theorem covers_iff (hp : p.Describes text) {t : List Char} : p.covers t ↔ ∃ a, t = text a := by
  rw [covers, isSome_matchAt?_iff]
  simp only [reads_append, Reads]
  constructor
  · rintro ⟨_, v, hv, ended, rfl⟩
    obtain ⟨a, ha⟩ := hp.sound hv
    rw [ended, List.append_nil] at ha
    exact ⟨a, ha⟩
  · rintro ⟨a, rfl⟩
    have start : Trail.rest ⟨0, ' ', text a, []⟩ = text a ++ [] := (List.append_nil _).symm
    obtain ⟨v, hv, ended⟩ := hp.complete start
    exact ⟨v, v, hv, ended, rfl⟩

end Describes

theorem describes_one (accepts : Char → Bool) :
    (one accepts).Describes fun c : {c : Char // accepts c} => [c.val] where
  sound h := by
    obtain ⟨c, cs, rest, accepted, rfl⟩ := h
    exact ⟨⟨c, accepted⟩, rest⟩
  complete {t c rest} h := ⟨_, ⟨c.val, rest, h, c.property, rfl⟩, rfl⟩

theorem describes_many (accepts : Char → Bool) :
    (many accepts).Describes fun w : {w : List Char // w.all accepts} => w.val where
  sound h := by
    obtain ⟨w, rest, split, all, rfl⟩ := h
    exact ⟨⟨w, all⟩, split⟩
  complete {t w rest} h := ⟨_, ⟨w.val, rest, h, w.property, rfl⟩, rfl⟩

theorem describes_char (c : Char) : (char c).Describes fun _ : Unit => [c] :=
  (describes_one (· == c)).map (fun _ => ()) (fun d => by rw [eq_of_beq d.property])
    fun _ => ⟨⟨c, beq_self_eq_true c⟩, rfl⟩

theorem describes_exactly (s : String) : (exactly s).Describes fun _ : Unit => s.toList where
  sound h := by
    obtain ⟨rest, split, rfl⟩ := reads_exactly.1 h
    exact ⟨(), split⟩
  complete {t _ rest} h := ⟨_, reads_exactly.2 ⟨rest, h, rfl⟩, rfl⟩

end WcagAudit.Pattern
