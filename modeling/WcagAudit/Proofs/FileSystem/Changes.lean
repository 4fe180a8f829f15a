import WcagAudit.Proofs.FileSystem.Locate

namespace WcagAudit

namespace Node

theorem wellFormed_directory {entries : List (FileName × Node)} :
    (directory entries).WellFormed ↔ (entries.map Prod.fst).Nodup ∧
      (∀ e ∈ entries, FileName.Valid e.1) ∧ ∀ e ∈ entries, e.2.WellFormed := by
  constructor
  · intro wf
    cases wf with
    | directory distinct names nodes => exact ⟨distinct, names, nodes⟩
  · rintro ⟨distinct, names, nodes⟩
    exact .directory distinct names nodes

theorem wellFormed_empty : (directory []).WellFormed := .directory .nil nofun nofun

section

variable {entries : List (FileName × Node)} {name : FileName} {n : Node}

theorem mem_setEntry {e : FileName × Node} (h : e ∈ setEntry entries name n) :
    e ∈ entries ∨ e = (name, n) := by
  unfold setEntry at h
  split at h
  · obtain ⟨old, member, rfl⟩ := List.mem_map.1 h
    split
    · exact .inr rfl
    · exact .inl member
  · exact (List.mem_append.1 h).imp_right List.mem_singleton.1

theorem nodup_setEntry (distinct : (entries.map Prod.fst).Nodup) :
    ((setEntry entries name n).map Prod.fst).Nodup := by
  unfold setEntry
  split
  · have keys : (entries.map fun e => if e.1 == name then (name, n) else e).map Prod.fst =
        entries.map Prod.fst := by
      rw [List.map_map]
      apply List.map_congr_left
      intro e _
      by_cases same : e.1 = name <;> simp [same]
    rw [keys]
    exact distinct
  · next absent =>
    rw [List.map_append, List.nodup_append]
    refine ⟨distinct, by simp, ?_⟩
    intro key hkey other hother
    obtain ⟨e, he, rfl⟩ := List.mem_map.1 hkey
    cases List.mem_singleton.1 hother
    exact fun same => absent (List.any_eq_true.2 ⟨e, he, beq_iff_eq.2 same⟩)

theorem wellFormed_setEntry (wf : (directory entries).WellFormed) (valid : name.Valid)
    (new : n.WellFormed) : (directory (setEntry entries name n)).WellFormed := by
  obtain ⟨distinct, names, nodes⟩ := wellFormed_directory.1 wf
  refine wellFormed_directory.2 ⟨nodup_setEntry distinct, ?_, ?_⟩
  · intro e he
    obtain old | rfl := mem_setEntry he
    · exact names e old
    · exact valid
  · intro e he
    obtain old | rfl := mem_setEntry he
    · exact nodes e old
    · exact new

end

theorem wellFormed_changeEntries {f : List (FileName × Node) → List (FileName × Node)} {n : Node}
    (wf : n.WellFormed)
    (keeps : ∀ entries, (directory entries).WellFormed → (directory (f entries)).WellFormed)
    (names : List FileName) : (n.changeEntries f names).WellFormed := by
  induction names generalizing n with
  | nil =>
    cases n with
    | file content => exact wf
    | directory entries => exact keeps entries wf
  | cons name names ih =>
    cases n with
    | file content => exact wf
    | directory entries =>
      obtain ⟨-, valid, nodes⟩ := wellFormed_directory.1 wf
      rw [changeEntries]
      split
      · next n entry =>
        have member := mem_of_lookup entry
        exact wellFormed_setEntry wf (valid _ member) (ih (nodes _ member))
      · exact wf

end Node

namespace FileSystem

variable {fs fs' : FileSystem} {p : Path}

theorem pieces_of_start {origin pieces : List FileName} (h : fs.start p = .ok (origin, pieces)) :
    ∀ piece ∈ pieces, Path.slash ∉ piece ∧ 0 ∉ piece := by
  unfold start at h
  split at h
  · cases h
  · next noNul =>
    split at h
    · cases h
    · split at h
      · cases h
      · cases h
        intro piece member
        have kept := mem_of_mem_piecesBy member
        refine ⟨fun slash => (kept _ slash).2 rfl, fun nul => noNul ?_⟩
        exact List.contains_iff_mem.2 (kept _ nul).1

theorem target_eq_ok {parent : List FileName} {name : FileName} {slash : Bool}
    (h : fs.target p = .ok (parent, some name, slash)) :
    ∃ origin pieces, fs.start p = .ok (origin, pieces) ∧
      let bare := (pieces.reverse.dropWhile (· == [])).reverse
      bare.getLast? = some name ∧ name ≠ [Path.dot] ∧ name ≠ [Path.dot, Path.dot] ∧ name.length ≤ 255 ∧
        follow fs.root origin bare.dropLast = .ok parent ∧
        (fs.root.at? parent).any Node.isDirectory ∧ slash = decide (bare.length < pieces.length) := by
  unfold target at h
  cases started : fs.start p with
  | error e => rw [started] at h; cases h
  | ok found =>
    obtain ⟨origin, pieces⟩ := found
    rw [started] at h
    simp only [bind, Except.bind] at h
    split at h
    · cases h
    · next last ends =>
      split at h
      · cases followed : follow fs.root origin pieces with
        | error e => rw [followed] at h; cases h
        | ok place => rw [followed] at h; cases h
      · next proper =>
        simp only [Bool.or_eq_true, decide_eq_true_eq, not_or] at proper
        split at h
        · cases h
        · next place followed =>
          split at h
          · next directory =>
            split at h
            · cases h
            · next short =>
              cases h
              exact ⟨origin, pieces, rfl, ends, proper.1, proper.2, Nat.not_lt.1 short, followed,
                directory, rfl⟩
          · cases h

theorem valid_of_target {parent : List FileName} {name : FileName} {slash : Bool}
    (h : fs.target p = .ok (parent, some name, slash)) : name.Valid := by
  obtain ⟨origin, pieces, started, ends, ne_current, ne_parent, short, -⟩ := target_eq_ok h
  rw [List.getLast?_reverse] at ends
  have nonempty := List.head?_dropWhile_not (· == []) pieces.reverse
  rw [ends] at nonempty
  have member : name ∈ pieces := by
    have kept := List.mem_of_mem_head? (Option.mem_def.2 ends)
    exact List.mem_reverse.1 ((List.dropWhile_sublist _).subset kept)
  obtain ⟨noSlash, noNul⟩ := pieces_of_start started name member
  exact ⟨beq_eq_false_iff_ne.1 nonempty, ne_current, ne_parent, noSlash, noNul, short⟩

theorem write_eq_ok {content : ByteArray} (h : fs.write p content = .ok fs') :
    ∃ parent name, fs.target p = .ok (parent, some name, false) ∧
      ¬(fs.root.at? (parent ++ [name])).any Node.isDirectory ∧
        fs' = fs.setNode parent name (.file content) := by
  unfold write at h
  cases found : fs.target p with
  | error e => rw [found] at h; cases h
  | ok t =>
    rw [found] at h
    simp only [bind, Except.bind] at h
    split at h
    · next parent name =>
      split at h
      · cases h
      · next notDirectory =>
        cases h
        exact ⟨parent, name, rfl, notDirectory, rfl⟩
    · cases h

theorem makeDirectory_eq_ok (h : fs.makeDirectory p = .ok fs') :
    ∃ parent name slash, fs.target p = .ok (parent, some name, slash) ∧
      fs' = fs.setNode parent name (.directory []) := by
  unfold makeDirectory at h
  cases found : fs.target p with
  | error e => rw [found] at h; cases h
  | ok t =>
    rw [found] at h
    simp only [bind, Except.bind] at h
    split at h
    · next parent name slash =>
      split at h
      · cases h
      · cases h
        exact ⟨parent, name, slash, rfl, rfl⟩
    · cases h

theorem setNode_wellFormed {parent : List FileName} {name : FileName} {slash : Bool} {n : Node}
    (wf : fs.root.WellFormed) (found : fs.target p = .ok (parent, some name, slash))
    (new : n.WellFormed) : (fs.setNode parent name n).root.WellFormed :=
  Node.wellFormed_changeEntries wf
    (fun _ wf => Node.wellFormed_setEntry wf (valid_of_target found) new) parent

theorem write_wellFormed {content : ByteArray} (wf : fs.root.WellFormed)
    (h : fs.write p content = .ok fs') : fs'.root.WellFormed := by
  obtain ⟨parent, name, found, -, rfl⟩ := write_eq_ok h
  exact setNode_wellFormed wf found (.file content)

theorem makeDirectory_wellFormed (wf : fs.root.WellFormed) (h : fs.makeDirectory p = .ok fs') :
    fs'.root.WellFormed := by
  obtain ⟨parent, name, slash, found, rfl⟩ := makeDirectory_eq_ok h
  exact setNode_wellFormed wf found Node.wellFormed_empty

theorem makeAll_wellFormed (wf : fs.root.WellFormed) (up : List Path.Component) :
    (fs.makeAll up).2.root.WellFormed := by
  induction up generalizing fs with
  | nil => exact wf
  | cons c up ih =>
    have above := ih wf
    simp only [makeAll]
    cases made : fs.makeDirectory (.ofComponents (c :: up).reverse) with
    | ok fs' => exact makeDirectory_wellFormed wf made
    | error e =>
      cases e with
      | notFound =>
        -- What is above has been made, as far as it went, and the directory is tried once more.
        generalize fs.makeAll up = rest at above
        obtain ⟨done, fs'⟩ := rest
        cases done with
        | error e => exact above
        | ok _ =>
          simp only
          cases made : fs'.makeDirectory (.ofComponents (c :: up).reverse) with
          | ok fs'' => exact makeDirectory_wellFormed above made
          | error e => exact above
      | _ => exact wf

theorem writeAll_wellFormed (wf : fs.root.WellFormed) (p : Path) (content : ByteArray) :
    (fs.writeAll p content).2.root.WellFormed := by
  have made := makeAll_wellFormed wf p.parent.reverse
  unfold writeAll
  split
  · next made_eq =>
    rw [made_eq] at made
    split
    · next written => exact write_wellFormed made written
    · exact made
  · exact made

end FileSystem
end WcagAudit
