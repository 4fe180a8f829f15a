import WcagAudit.FileSystem.Basic

namespace WcagAudit

structure FileName.Valid (name : FileName) : Prop where
  ne_nil : name ≠ []
  ne_current : name ≠ [Path.dot]
  ne_parent : name ≠ [Path.dot, Path.dot]
  noSlash : Path.slash ∉ name
  noNul : 0 ∉ name
  short : name.length ≤ 255

/-- No directory has two entries of one name. -/
inductive Node.WellFormed : Node → Prop
  | file (content : ByteArray) : WellFormed (.file content)
  | directory {entries : List (FileName × Node)} (distinct : (entries.map Prod.fst).Nodup)
      (names : ∀ e ∈ entries, FileName.Valid e.1) (nodes : ∀ e ∈ entries, e.2.WellFormed) :
      WellFormed (.directory entries)

def Path.descend (p : Path) (names : List FileName) : Path := names.foldl Path.join p

theorem Path.bytes_join (p : Path) (name : FileName) :
    (p.join name).bytes = p.bytes ++ name ∨ (p.join name).bytes = p.bytes ++ slash :: name := by
  unfold Path.join
  split
  · exact .inl rfl
  · exact .inr rfl

/-- The pieces of a joined path are those of `p` and the name, except that nothing stands for a slash
at the end of `p`. -/
theorem Path.piecesBy_join {p : Path} {name : FileName} (hp : p.bytes ≠ []) (hn : Path.slash ∉ name) :
    ∃ front, front ≠ [] ∧ piecesBy isSlash (p.join name).bytes = front ++ [name] ∧
      (piecesBy isSlash p.bytes = front ∨ piecesBy isSlash p.bytes = front ++ [[]]) := by
  have single : piecesBy isSlash name = [name] :=
    piecesBy_of_forall_not fun c hc slash => hn (beq_iff_eq.1 slash ▸ hc)
  obtain ⟨front, last, text⟩ : ∃ front last, p.bytes = front ++ [last] :=
    ⟨_, _, (List.dropLast_concat_getLast hp).symm⟩
  by_cases ends : last = slash
  · subst ends
    have joined : (p.join name).bytes = front ++ slash :: name := by simp [join, text]
    refine ⟨piecesBy isSlash front, piecesBy_ne_nil front, ?_, .inr ?_⟩
    · rw [joined, piecesBy_append rfl, single]
    · rw [text, piecesBy_append rfl]
      rfl
  · have joined : (p.join name).bytes = p.bytes ++ slash :: name := by simp [join, text, ends]
    refine ⟨piecesBy isSlash p.bytes, piecesBy_ne_nil p.bytes, ?_, .inl rfl⟩
    rw [joined, piecesBy_append rfl, single]

theorem Path.components_eq {p : Path} {piece : FileName} {pieces : List FileName} (hp : p.bytes ≠ [])
    (h : piecesBy isSlash p.bytes = piece :: pieces) :
    p.components = (if piece = [] then some .root else if piece = [dot] then some .current
      else inner? piece).toList ++ pieces.filterMap inner? := by
  rw [components, h]
  split
  · next h' => cases h'
  · next h' =>
    cases h'
    exact absurd (eq_nil_of_piecesBy h) hp
  · next h' => cases h'; rfl

theorem Path.components_join {p : Path} {name : FileName} (hp : p.bytes ≠ []) (valid : name.Valid) :
    (p.join name).components = p.components ++ [.name name] := by
  obtain ⟨front, nonempty, joined, pieces⟩ := piecesBy_join hp valid.noSlash
  obtain ⟨piece, front, rfl⟩ := List.exists_cons_of_ne_nil nonempty
  have nonempty' : (p.join name).bytes ≠ [] := by
    obtain bytes | bytes := p.bytes_join name <;> simp [bytes, hp]
  have last : inner? name = some (.name name) := by
    simp [inner?, valid.ne_nil, valid.ne_current, valid.ne_parent]
  have slash : inner? [] = none := rfl
  rw [components_eq nonempty' joined]
  obtain pieces | pieces := pieces <;> rw [components_eq hp pieces] <;> simp [last, slash]

theorem Path.fileName?_join {p : Path} {name : FileName} (hp : p.bytes ≠ []) (valid : name.Valid) :
    (p.join name).fileName? = some name := by
  rw [fileName?, components_join hp valid, List.getLast?_concat]

theorem Path.components_descend {p : Path} {names : List FileName} (hp : p.bytes ≠ [])
    (valid : ∀ name ∈ names, FileName.Valid name) :
    (p.descend names).components = p.components ++ names.map .name := by
  induction names generalizing p with
  | nil => simp [descend]
  | cons name names ih =>
    obtain ⟨first, later⟩ := List.forall_mem_cons.1 valid
    have nonempty : (p.join name).bytes ≠ [] := by
      obtain bytes | bytes := p.bytes_join name <;> simp [bytes, hp]
    change ((p.join name).descend names).components = _
    rw [ih nonempty later, components_join hp first, List.append_assoc]
    rfl
namespace Node

theorem mem_of_lookup {entries : List (FileName × Node)} {name : FileName} {n : Node}
    (h : entries.lookup name = some n) : (name, n) ∈ entries := by
  obtain ⟨before, after, rfl, -⟩ := List.lookup_eq_some_iff.1 h
  simp

theorem lookup_of_mem {entries : List (FileName × Node)} {name : FileName} {n : Node}
    (distinct : (entries.map Prod.fst).Nodup) (h : (name, n) ∈ entries) :
    entries.lookup name = some n := by
  obtain ⟨before, after, rfl⟩ := List.append_of_mem h
  refine List.lookup_eq_some_iff.2 ⟨before, after, rfl, fun e he => ?_⟩
  simp only [List.map_append, List.map_cons, List.nodup_append] at distinct
  exact bne_iff_ne.2 (distinct.2.2 _ (List.mem_map_of_mem he) _ List.mem_cons_self).symm

theorem at?_append (n : Node) (names names' : List FileName) :
    n.at? (names ++ names') = (n.at? names).bind (·.at? names') := by
  induction names generalizing n with
  | nil => rfl
  | cons name names ih =>
    cases n with
    | file content => rfl
    | directory entries =>
      simp only [List.cons_append, at?]
      cases entries.lookup name with
      | none => rfl
      | some m => exact ih m

theorem WellFormed.at? {n m : Node} {names : List FileName} (wf : n.WellFormed)
    (h : n.at? names = some m) : m.WellFormed := by
  induction names generalizing n with
  | nil =>
    cases h
    exact wf
  | cons name names ih =>
    cases wf with
    | file content => cases h
    | directory distinct valid nodes =>
      obtain ⟨child, entry, below⟩ := Option.bind_eq_some_iff.1 h
      exact ih (nodes _ (mem_of_lookup entry)) below

theorem WellFormed.valid_of_at? {n m : Node} {names : List FileName} (wf : n.WellFormed)
    (h : n.at? names = some m) : ∀ name ∈ names, FileName.Valid name := by
  induction names generalizing n with
  | nil => exact nofun
  | cons name names ih =>
    cases wf with
    | file content => cases h
    | directory distinct valid nodes =>
      obtain ⟨child, entry, below⟩ := Option.bind_eq_some_iff.1 h
      have member := mem_of_lookup entry
      exact List.forall_mem_cons.2 ⟨valid _ member, ih (nodes _ member) below⟩

end Node

theorem decode_toUTF8 (s : String) : FileSystem.decode s.toUTF8 = .ok s.toList := by
  have decoded : String.fromUTF8? s.toUTF8 = some s := dif_pos s.isValidUTF8
  rw [FileSystem.decode, decoded]

namespace FileSystem

variable {fs : FileSystem} {p : Path} {name : FileName} {place : List FileName} {n : Node}

theorem tooLong_iff : tooLong p ↔ 4096 ≤ p.bytes.length := decide_eq_true_iff

theorem length_bytes_le_join (p : Path) (name : FileName) :
    p.bytes.length ≤ (p.join name).bytes.length := by
  obtain bytes | bytes := p.bytes_join name <;> simp [bytes]

theorem tooLong_join (h : tooLong p) (name : FileName) : tooLong (p.join name) :=
  tooLong_iff.2 (Nat.le_trans (tooLong_iff.1 h) (length_bytes_le_join p name))

theorem tooLong_descend (h : tooLong p) (names : List FileName) : tooLong (p.descend names) := by
  induction names generalizing p with
  | nil => exact h
  | cons name names ih => exact ih (tooLong_join h name)

theorem follow_append (root : Node) (place pieces pieces' : List FileName) :
    follow root place (pieces ++ pieces') =
      (follow root place pieces).bind (follow root · pieces') := by
  induction pieces generalizing place with
  | nil => rfl
  | cons piece pieces ih =>
    simp only [List.cons_append, follow]
    split
    · split
      · exact ih place
      · split
        · exact ih place.dropLast
        · split
          · rfl
          · split
            · exact ih (place ++ [piece])
            · rfl
    · rfl

theorem follow_nil_piece {root : Node} {q : List FileName} (h : follow root place [[]] = .ok q) :
    q = place := by
  simp only [follow] at h
  split at h
  · simpa using h.symm
  · cases h

theorem follow_join {root : Node} {origin : List FileName} (hp : p.bytes ≠ []) (hn : Path.slash ∉ name)
    (h : follow root origin (piecesBy Path.isSlash p.bytes) = .ok place) :
    follow root origin (piecesBy Path.isSlash (p.join name).bytes) = follow root place [name] := by
  obtain ⟨front, -, joined, same | slash⟩ := Path.piecesBy_join hp hn
  · rw [joined, ← same, follow_append, h]
    rfl
  · -- The empty piece behind a slash at the end gives way to the name, and it leads nowhere else.
    rw [joined, follow_append]
    rw [slash, follow_append] at h
    cases hq : follow root origin front with
    | error e => rw [hq] at h; cases h
    | ok q =>
      rw [hq] at h
      rw [follow_nil_piece h]
      rfl

theorem locate_eq_ok : fs.locate p = .ok place ↔ 0 ∉ p.bytes ∧ p.bytes ≠ [] ∧ tooLong p = false ∧
    follow fs.root (if p.bytes.head? = some Path.slash then [] else fs.current)
      (piecesBy Path.isSlash p.bytes) = .ok place := by
  unfold locate start
  by_cases nul : p.bytes.contains 0
  · rw [if_pos nul]
    exact ⟨nofun, fun h => absurd (List.contains_iff_mem.1 nul) h.1⟩
  · rw [if_neg nul]
    by_cases empty : p.bytes.isEmpty
    · rw [if_pos empty]
      exact ⟨nofun, fun h => absurd (List.isEmpty_iff.1 empty) h.2.1⟩
    · rw [if_neg empty]
      cases long : tooLong p with
      | true => exact ⟨nofun, nofun⟩
      | false =>
        refine ⟨fun h => ⟨?_, ?_, rfl, h⟩, fun h => h.2.2.2⟩
        · exact fun h => nul (List.contains_iff_mem.2 h)
        · exact fun h => empty (List.isEmpty_iff.2 h)

theorem node_eq_ok : fs.node p = .ok n ↔
    ∃ place, fs.locate p = .ok place ∧ fs.root.at? place = some n := by
  unfold node
  cases fs.locate p with
  | error e => exact ⟨nofun, nofun⟩
  | ok place =>
    cases found : fs.root.at? place with
    | none =>
      simp only [bind, Except.bind, found]
      exact ⟨nofun, fun ⟨_, h, h'⟩ => by cases h; simp [found] at h'⟩
    | some m =>
      simp only [bind, Except.bind, found, Except.ok.injEq, exists_eq_left']
      exact ⟨fun h => by cases h; rfl, fun h => by cases h; rfl⟩

theorem follow_step {root : Node} {piece : FileName} {pieces goal : List FileName}
    (h : follow root place (piece :: pieces) = .ok goal) :
    ∃ entries next, root.at? place = some (.directory entries) ∧ (root.at? next).isSome ∧
      follow root next pieces = .ok goal := by
  rw [follow] at h
  split at h
  · next entries here =>
    refine ⟨entries, ?_⟩
    split at h
    · exact ⟨place, here, by rw [here]; rfl, h⟩
    · split at h
      · -- What is above a directory is there too, and above the root is the root.
        refine ⟨place.dropLast, here, ?_, h⟩
        obtain rfl | ⟨front, last, rfl⟩ := List.eq_nil_or_concat place
        · rfl
        · rw [List.concat_eq_append, Node.at?_append] at here
          obtain ⟨above, found, -⟩ := Option.bind_eq_some_iff.1 here
          simp [found]
      · split at h
        · cases h
        · split at h
          · next entry =>
            refine ⟨place ++ [piece], here, ?_, h⟩
            obtain ⟨n, entry⟩ := Option.isSome_iff_exists.1 entry
            simp [Node.at?_append, here, Node.at?, entry]
          · cases h
  · cases h

theorem follow_found {root : Node} {pieces goal : List FileName} (here : (root.at? place).isSome)
    (h : follow root place pieces = .ok goal) : (root.at? goal).isSome := by
  induction pieces generalizing place with
  | nil =>
    cases h
    exact here
  | cons piece pieces ih =>
    obtain ⟨-, next, -, found, onward⟩ := follow_step h
    exact ih found onward

theorem follow_pieces {root : Node} {bytes : List UInt8} {goal : List FileName}
    (h : follow root place (piecesBy Path.isSlash bytes) = .ok goal) :
    (∃ entries, root.at? place = some (.directory entries)) ∧ (root.at? goal).isSome := by
  obtain ⟨piece, pieces, split⟩ := List.exists_cons_of_ne_nil (piecesBy_ne_nil bytes)
  rw [split] at h
  obtain ⟨entries, next, here, found, onward⟩ := follow_step h
  exact ⟨⟨entries, here⟩, follow_found found onward⟩

theorem pathExists_iff : fs.pathExists p ↔ ∃ n, fs.node p = .ok n := by
  have located : fs.pathExists p ↔ ∃ place, fs.locate p = .ok place := by
    unfold pathExists
    cases fs.locate p <;> simp [Except.toOption]
  simp only [located, node_eq_ok]
  constructor
  · rintro ⟨place, h⟩
    obtain ⟨n, there⟩ :=
      Option.isSome_iff_exists.1 (follow_pieces (locate_eq_ok.1 h).2.2.2).2
    exact ⟨n, place, h, there⟩
  · rintro ⟨n, place, h, -⟩
    exact ⟨place, h⟩

theorem not_pathExists_below {q : Path} {content : ByteArray} {rest : List UInt8}
    (h : fs.node q = .ok (.file content)) (below : p.bytes = q.bytes ++ Path.slash :: rest) :
    fs.pathExists p = false := by
  rw [Bool.eq_false_iff, Ne, pathExists_iff]
  rintro ⟨n, exists'⟩
  obtain ⟨place, located, file⟩ := node_eq_ok.1 h
  obtain ⟨-, nonempty, -, followed⟩ := locate_eq_ok.1 located
  obtain ⟨goal, located', -⟩ := node_eq_ok.1 exists'
  have followed' := (locate_eq_ok.1 located').2.2.2
  have head : p.bytes.head? = q.bytes.head? := by simp [below, List.head?_eq_some_head nonempty]
  rw [head, below, piecesBy_append rfl, follow_append, followed] at followed'
  -- Another piece can be followed only from a directory, be it empty.
  obtain ⟨⟨entries, directory⟩, -⟩ := follow_pieces followed'
  rw [file] at directory
  cases directory

theorem not_tooLong_of_node (h : fs.node p = .ok n) : tooLong p = false := by
  obtain ⟨place, located, -⟩ := node_eq_ok.1 h
  exact (locate_eq_ok.1 located).2.2.1

theorem follow_entry {root : Node} {entries : List (FileName × Node)}
    (here : root.at? place = some (.directory entries)) (valid : name.Valid)
    (entry : (entries.lookup name).isSome) : follow root place [name] = .ok (place ++ [name]) := by
  have proper : ¬(name = [] ∨ name = [Path.dot]) := not_or.2 ⟨valid.ne_nil, valid.ne_current⟩
  simp [follow, here, proper, valid.ne_parent, Nat.not_lt.2 valid.short, entry]

theorem node_join {entries : List (FileName × Node)} (h : fs.node p = .ok (.directory entries))
    (valid : name.Valid) (entry : entries.lookup name = some n)
    (short : tooLong (p.join name) = false) :
    fs.node (p.join name) = .ok n := by
  obtain ⟨place, located, here⟩ := node_eq_ok.1 h
  obtain ⟨noNul, nonempty, -, followed⟩ := locate_eq_ok.1 located
  refine node_eq_ok.2 ⟨place ++ [name], locate_eq_ok.2 ⟨?_, ?_, short, ?_⟩, ?_⟩
  · have noSlash : (0 : UInt8) ≠ Path.slash := by decide
    obtain bytes | bytes := p.bytes_join name <;> simp [bytes, noNul, valid.noNul, noSlash]
  · obtain bytes | bytes := p.bytes_join name <;> simp [bytes, nonempty]
  · have head : (p.join name).bytes.head? = p.bytes.head? := by
      obtain bytes | bytes := p.bytes_join name <;> simp [bytes, List.head?_eq_some_head nonempty]
    rw [head, follow_join nonempty valid.noSlash followed, follow_entry here valid (by rw [entry]; rfl)]
  · rw [Node.at?_append, here]
    simp [Node.at?, entry]

theorem node_descend {m : Node} {names : List FileName} (h : fs.node p = .ok n) (wf : n.WellFormed)
    (below : n.at? names = some m) (short : tooLong (p.descend names) = false) :
    fs.node (p.descend names) = .ok m := by
  induction names generalizing p n with
  | nil =>
    cases below
    exact h
  | cons name names ih =>
    cases wf with
    | file content => cases below
    | @directory entries distinct valid nodes =>
      obtain ⟨child, entry, below⟩ := Option.bind_eq_some_iff.1 below
      have member : (name, child) ∈ entries := Node.mem_of_lookup entry
      have shorter : tooLong (p.join name) = false :=
        Bool.eq_false_iff.2 fun long => Bool.eq_false_iff.1 short (tooLong_descend long names)
      exact ih (node_join h (valid _ member) entry shorter) (nodes _ member) below short

theorem readText_descend {content : ByteArray} {names : List FileName} (h : fs.node p = .ok n)
    (wf : n.WellFormed) (below : n.at? names = some (.file content))
    (short : tooLong (p.descend names) = false) :
    fs.readText (p.descend names) = decode content := by
  rw [readText, node_descend h wf below short]
  rfl

theorem decode_utf8Encode (t : List Char) : decode t.utf8Encode = .ok t := by
  have text := decode_toUTF8 (String.ofList t)
  rwa [String.toList_ofList] at text

theorem decode_of_not_isValidUTF8 {content : ByteArray} (h : ¬content.IsValidUTF8) :
    decode content = .error .invalidText := by
  have undecoded : String.fromUTF8? content = none := dif_neg h
  rw [decode, undecoded]

theorem not_tooLong_of_readText {t : List Char} (h : fs.readText p = .ok t) : tooLong p = false := by
  cases found : fs.node p with
  | error e =>
    rw [readText, found] at h
    cases h
  | ok n => exact not_tooLong_of_node found

end FileSystem
end WcagAudit
