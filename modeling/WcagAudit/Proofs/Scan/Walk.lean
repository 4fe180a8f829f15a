import Mathlib.Data.List.Lex
import WcagAudit.Proofs.FileSystem.Locate
import WcagAudit.Scan.Directory

namespace WcagAudit

theorem FileName.inOrder_iff (s t : FileName) : inOrder s t ↔ s ≤ t := by
  induction s generalizing t with
  | nil => simp [inOrder]
  | cons b s ih =>
    cases t with
    | nil => simp [inOrder]
    | cons c t => simp [inOrder, List.cons_le_cons_iff, ← ih]

theorem sortEntries_map (f : FileName × α → β) (entries : List (FileName × α)) :
    sortEntries (entries.map fun e => (e.1, f e)) = (sortEntries entries).map fun e => (e.1, f e) := by
  unfold sortEntries
  rw [List.map_mergeSort]
  exact fun _ _ _ _ => rfl

theorem mem_sortEntries {entries : List (FileName × α)} {e : FileName × α} :
    e ∈ sortEntries entries ↔ e ∈ entries :=
  List.mem_mergeSort

theorem pairwise_sortEntries {entries : List (FileName × α)}
    (distinct : (entries.map Prod.fst).Nodup) :
    (sortEntries entries).Pairwise fun a b => a.1 < b.1 := by
  have inOrder : (sortEntries entries).Pairwise fun a b => FileName.inOrder a.1 b.1 := by
    apply List.pairwise_mergeSort
    · intro a b c
      simp only [FileName.inOrder_iff]
      exact Std.le_trans
    · intro a b
      simp only [Bool.or_eq_true, FileName.inOrder_iff]
      exact Std.le_total
  have apart : (sortEntries entries).Pairwise fun a b => a.1 ≠ b.1 :=
    List.pairwise_map.1 (((List.mergeSort_perm entries _).map Prod.fst).nodup_iff.2 distinct)
  exact (inOrder.and apart).imp fun h => Std.lt_of_le_of_ne ((FileName.inOrder_iff _ _).1 h.1) h.2

theorem Node.induction {P : Node → Prop} (file : ∀ content, P (.file content))
    (directory : ∀ entries, (∀ e ∈ entries, P e.2) → P (.directory entries)) : ∀ n, P n
  | .file content => file content
  | .directory entries => directory entries fun e _ => induction file directory e.2
decreasing_by
  have smaller : sizeOf e < sizeOf entries := List.sizeOf_lt_of_mem ‹e ∈ entries›
  cases e
  simp only [Node.directory.sizeOf_spec, Prod.mk.sizeOf_spec] at *
  omega

mutual

def Node.leaves (s : Selection) : Node → List (List FileName)
  | .file _ => [[]]
  | .directory entries => (sortEntries (leavesInside s entries)).flatMap fun e => e.2.map (e.1 :: ·)

def leavesInside (s : Selection) : List (FileName × Node) → List (FileName × List (List FileName))
  | [] => []
  | (name, n) :: entries =>
    (name, if !n.isDirectory || s.enters name then n.leaves s else []) :: leavesInside s entries

end

section

variable {s : Selection}

theorem leavesInside_eq (entries : List (FileName × Node)) :
    leavesInside s entries =
      entries.map fun e => (e.1, if !e.2.isDirectory || s.enters e.1 then e.2.leaves s else []) := by
  induction entries with
  | nil => rfl
  | cons e entries ih => rw [leavesInside, ih]; rfl

theorem walkInside_eq (p : Path) (entries : List (FileName × Node)) :
    walkInside s p entries =
      entries.map fun e =>
        (e.1, if !e.2.isDirectory || s.enters e.1 then e.2.walk s (p.join e.1) else []) := by
  induction entries with
  | nil => rfl
  | cons e entries ih => rw [walkInside, ih]; rfl

namespace Node

theorem leaves_directory (entries : List (FileName × Node)) :
    (directory entries).leaves s = (sortEntries entries).flatMap fun e =>
      if !e.2.isDirectory || s.enters e.1 then (e.2.leaves s).map (e.1 :: ·) else [] := by
  rw [leaves, leavesInside_eq,
    sortEntries_map fun e : FileName × Node =>
      if !e.2.isDirectory || s.enters e.1 then e.2.leaves s else [],
    List.flatMap_map]
  congr 1
  funext e
  split <;> rfl

theorem walk_directory (p : Path) (entries : List (FileName × Node)) :
    (directory entries).walk s p =
      if FileSystem.tooLong p then [.unreadable p .nameTooLong]
      else (sortEntries entries).flatMap fun e =>
        if !e.2.isDirectory || s.enters e.1 then e.2.walk s (p.join e.1) else [] := by
  rw [walk, walkInside_eq,
    sortEntries_map fun e : FileName × Node =>
      if !e.2.isDirectory || s.enters e.1 then e.2.walk s (p.join e.1) else [],
    List.flatMap_map]

theorem isDirectory_of_leaf {n : Node} {content : ByteArray} {name : FileName}
    {names : List FileName} (h : n.at? (name :: names) = some (.file content)) :
    n.isDirectory = true := by
  cases n with
  | file _ => cases h
  | directory _ => rfl

theorem entered_cons {n : Node} {content : ByteArray} {name : FileName} {names : List FileName}
    (h : n.at? names = some (.file content)) :
    (∀ d ∈ (name :: names).dropLast, s.enters d) ↔
      (!n.isDirectory || s.enters name) = true ∧ ∀ d ∈ names.dropLast, s.enters d := by
  cases names with
  | nil =>
    cases h
    simp [isDirectory]
  | cons name' names => simp [isDirectory_of_leaf h]

theorem mem_leaves {n : Node} (wf : n.WellFormed) (names : List FileName) :
    names ∈ n.leaves s ↔ (∃ content, n.at? names = some (.file content)) ∧
      ∀ d ∈ names.dropLast, s.enters d := by
  induction wf generalizing names with
  | file content => cases names <;> simp [leaves, at?]
  | @directory entries distinct valid nodes ih =>
    rw [leaves_directory, List.mem_flatMap]
    constructor
    · rintro ⟨⟨name, n⟩, member, inside⟩
      rw [mem_sortEntries] at member
      split at inside
      · next entered =>
        obtain ⟨names, leaf, rfl⟩ := List.mem_map.1 inside
        obtain ⟨⟨content, found⟩, below⟩ := (ih _ member names).1 leaf
        refine ⟨⟨content, ?_⟩, (entered_cons found).2 ⟨entered, below⟩⟩
        rw [at?, lookup_of_mem distinct member]
        exact found
      · cases inside
    · rintro ⟨⟨content, found⟩, entered⟩
      cases names with
      | nil => cases found
      | cons name names =>
        obtain ⟨n, entry, found⟩ := Option.bind_eq_some_iff.1 found
        obtain ⟨here, below⟩ := (entered_cons found).1 entered
        have member := mem_of_lookup entry
        refine ⟨(name, n), mem_sortEntries.2 member, ?_⟩
        rw [if_pos here]
        exact List.mem_map_of_mem ((ih _ member names).2 ⟨⟨content, found⟩, below⟩)

theorem pairwise_leaves {n : Node} (wf : n.WellFormed) : (n.leaves s).Pairwise (· < ·) := by
  induction wf with
  | file content => exact List.pairwise_singleton _ _
  | @directory entries distinct valid nodes ih =>
    rw [leaves_directory, List.pairwise_flatMap]
    constructor
    · intro e member
      split
      · exact List.pairwise_map.2 ((ih e (mem_sortEntries.1 member)).imp List.cons_lt_cons_self.2)
      · exact List.Pairwise.nil
    · apply (pairwise_sortEntries distinct).imp
      intro a b before names inA names' inB
      split at inA
      · split at inB
        · obtain ⟨rest, -, rfl⟩ := List.mem_map.1 inA
          obtain ⟨rest', -, rfl⟩ := List.mem_map.1 inB
          exact List.cons_lt_cons_iff.2 (.inl before)
        · cases inB
      · cases inA

end Node

end

end WcagAudit
