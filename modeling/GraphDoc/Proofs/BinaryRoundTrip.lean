import GraphDoc.Proofs.WireRead
/-! # The binary round trip

A document whose structures and lists are each reached along one path only is written in the
binary format and read back as the tree it is, bit for bit: the same kinds, tags, UIDs, keys in
order, and scalars, reals as their exact bit patterns. What the format does not hold is lost:
the source lines, and the links of UID references. When the writer declares only the UIDs that
are referenced, the others read back as `#NULL`.

* The header reads back (`header_reads`), and a document is its header, the kind byte of a
  structure and a structure body that ends the bytes (`document_run`).
* A walk that is a tree is written as that tree without lines and links, with the UIDs the
  writer does not declare dropped (`written_of_mirrors`).
* Every count of the tree still fits once lines, links and UIDs are dropped
  (`countsFit_dropUids_bare`), so the chunk lemma of `Wire.Reader` applies, and the round trip
  follows (`ofBinary_binaryWith_usage`, `ofBinary_binary_roundTrip`).
-/
namespace GraphDoc

theorem BytesAt.extract_size_toList {bytes : ByteArray} {pos : Nat} {l : List UInt8}
    (h : BytesAt bytes pos l) : ∃ t, (bytes.extract pos bytes.size).toList = l ++ t := by
  obtain ⟨t, ht⟩ := h.2
  refine ⟨t, ?_⟩
  rw [byteArray_toList, ByteArray.data_extract, Array.toList_extract, List.extract_eq_take_drop,
    ← ht]
  have hlen : (l ++ t).length = bytes.size - pos := by rw [ht]; simp
  rw [List.take_of_length_le (by omega)]

/-! ## The header and the document -/

namespace Wire
namespace Reader

variable {bytes : ByteArray}

theorem header_eq : Wire.header =
    magic ++ (littleEndian 2 version ++ (encodingName.toUTF8.toList ++ 0 :: [0, 0, 0, 0])) := by
  rw [Wire.header, show littleEndian 2 version = [version.toUInt8, (version / 256).toUInt8] by
    decide]
  simp only [List.append_assoc, List.cons_append, List.nil_append]

/-- The encoding name holds no zero byte, so the zero after it is the first. -/
theorem idxOf?_encodingName (rest : List UInt8) :
    (encodingName.toUTF8.toList ++ 0 :: rest).idxOf? 0 = some encodingName.toUTF8.toList.length := by
  rw [show encodingName.toUTF8.toList = [0x61, 0x73, 0x63, 0x69, 0x69] by
    rw [byteArray_toList]; decide]
  rfl

/-- **The header reads back**: signature, version, encoding name and flag bytes. -/
theorem header_reads : Reads bytes (header bytes) Wire.header () := by
  intro pos hat
  rw [header_eq] at hat ⊢
  obtain ⟨hm, hat⟩ := BytesAt.append.1 hat
  obtain ⟨hv, hat⟩ := BytesAt.append.1 hat
  simp only [Reader.header, StateT.run_bind, StateT.run_get, pure_bind]
  rw [if_neg (by simp [hm.le_size, hm.extract_toList])]
  simp only [StateT.run_bind, StateT.run_set, pure_bind]
  rw [word_reads 2 version _ hv]
  simp only [except_ok_bind]
  rw [if_neg (by decide)]
  -- the encoding name ends at the first zero byte of the rest, and the flags follow it
  obtain ⟨t, ht⟩ := BytesAt.extract_size_toList hat
  obtain ⟨-, hflags⟩ := BytesAt.append.1 hat
  simp only [StateT.run_bind, StateT.run_get, pure_bind, ht, List.append_assoc, List.cons_append,
    idxOf?_encodingName, List.take_left, bne_self_eq_false, Bool.false_eq_true, if_false,
    StateT.run_set]
  have htake : (take bytes 4).run _ = _ := take_reads [0, 0, 0, 0] _ (BytesAt.cons.1 hflags).2
  rw [htake]
  simp only [except_ok_bind, StateT.run_pure, List.length_append, List.length_cons,
    List.length_nil]
  exact congrArg (fun n => Except.ok ((), n)) (by omega)

/-- A document is read as the structure whose body follows the header and the kind byte, when
that body ends the bytes. -/
theorem document_run {body : List UInt8} {t : Tree}
    (hbytes : bytes.data.toList = Wire.header ++ ChunkKind.struct.code :: body)
    (hbody : Reads bytes (structureBody bytes (bytes.size + 1)) body t) :
    (document bytes).run' 0 = .ok t := by
  have hat : BytesAt bytes 0 (Wire.header ++ ChunkKind.struct.code :: body) :=
    ⟨Nat.zero_le _, [], by rw [List.append_nil, List.drop_zero, hbytes]⟩
  have hsize : bytes.size = Wire.header.length + 1 + body.length := by
    rw [← ByteArray.size_data, ← Array.length_toList, hbytes]; simp; omega
  obtain ⟨hh, hrest⟩ := BytesAt.append.1 hat
  have hrest' : BytesAt bytes (0 + Wire.header.length) ([ChunkKind.struct.code] ++ body) := hrest
  obtain ⟨hk, hb⟩ := BytesAt.append.1 hrest'
  simp only [document, StateT.run'_eq, StateT.run_bind, header_reads 0 hh, except_ok_bind]
  rw [kind_reads .struct _ hk]
  simp only [except_ok_bind, bne_self_eq_false, Bool.false_eq_true, if_false, StateT.run_bind,
    hbody _ hb, StateT.run_get, pure_bind]
  -- the body ends the bytes: no trailing bytes
  rw [if_neg (by simp; omega)]
  rfl

end Reader
end Wire

/-! ## What a tree-shaped walk writes -/

namespace Tree

variable (drop : String → Bool)

theorem length_barePairs (ps : List (String × Tree)) : (barePairs ps).length = ps.length := by
  induction ps with
  | nil => rfl
  | cons p rest ih => simp [barePairs, ih]

theorem length_bareItems (ts : List Tree) : (bareItems ts).length = ts.length := by
  induction ts with
  | nil => rfl
  | cons t rest ih => simp [bareItems, ih]

theorem length_dropUidsPairs (ps : List (String × Tree)) :
    (dropUidsPairs drop ps).length = ps.length := by
  induction ps with
  | nil => rfl
  | cons p rest ih => simp [dropUidsPairs, ih]

theorem length_dropUidsItems (ts : List Tree) : (dropUidsItems drop ts).length = ts.length := by
  induction ts with
  | nil => rfl
  | cons t rest ih => simp [dropUidsItems, ih]

/-- The UID a structure keeps when `drop` may replace it by `#NULL` still fits. -/
theorem countFits_droppedUid {uid : String} (h : CountFits uid.utf8ByteSize) :
    CountFits (if drop uid then nullUid else uid).utf8ByteSize := by
  split
  · decide
  · exact h

mutual
/-- **The counts of a tree still fit without lines, links and dropped UIDs.** -/
theorem countsFit_dropUids_bare : ∀ t : Tree, t.countsFit = true →
    ((bare t).dropUids drop).countsFit = true
  | .scalar sc _, h => by cases sc <;> exact h
  | .struct tag uid _ ps, h => by
    simp only [countsFit, Bool.and_eq_true] at h
    obtain ⟨⟨⟨htag, huid⟩, hn⟩, hps⟩ := h
    simp only [bare, dropUids, countsFit, length_dropUidsPairs, length_barePairs, htag, hn,
      countFits_droppedUid drop huid, countsFitPairs_dropUids_bare ps hps, Bool.and_self]
  | .list tag _ items, h => by
    simp only [countsFit, Bool.and_eq_true] at h
    obtain ⟨⟨htag, hn⟩, hitems⟩ := h
    simp only [bare, dropUids, countsFit, length_dropUidsItems, length_bareItems, htag, hn,
      countsFitItems_dropUids_bare items hitems, Bool.and_self]
  | .raw .., h | .ints .., h | .reals .., h => h

theorem countsFitPairs_dropUids_bare : ∀ ps : List (String × Tree), countsFitPairs ps = true →
    countsFitPairs (dropUidsPairs drop (barePairs ps)) = true
  | [], _ => rfl
  | (k, t) :: rest, h => by
    simp only [countsFitPairs, Bool.and_eq_true] at h
    simp only [barePairs, dropUidsPairs, countsFitPairs, h.1.1, countsFit_dropUids_bare t h.1.2,
      countsFitPairs_dropUids_bare rest h.2, Bool.and_self]

theorem countsFitItems_dropUids_bare : ∀ ts : List Tree, countsFitItems ts = true →
    countsFitItems (dropUidsItems drop (bareItems ts)) = true
  | [], _ => rfl
  | t :: rest, h => by
    simp only [countsFitItems, Bool.and_eq_true] at h
    simp only [bareItems, dropUidsItems, countsFitItems, countsFit_dropUids_bare t h.1,
      countsFitItems_dropUids_bare rest h.2, Bool.and_self]
end

end Tree

namespace Shape

variable (used : String → Bool)

/-- The UID the writer keeps is the one `dropUids` keeps for the UIDs it does not declare. -/
theorem keptUid_eq (uid : String) :
    (if (uid != nullUid && used uid) = true then uid else nullUid) =
      if (!used uid) = true then nullUid else uid := by
  by_cases hu : uid = nullUid <;> cases used uid <;> simp [hu]

mutual
/-- **A walk that is a tree writes that tree**, without its lines and links, and with `#NULL`
for the UIDs the writer does not declare. -/
theorem written_of_mirrors : ∀ (t : Tree) {s : Shape}, s.Mirrors t →
    s.written used = some ((t.bare).dropUids fun u => !used u)
  | .scalar .., _, h => by cases h; rfl
  | .struct tag uid line qs, _, h => by
    cases h with
    | struct id _ _ _ ps _ hkeys hvals =>
      simp only [written, writtenPairs_of_mirrors qs ps hkeys hvals, Option.map_some, Tree.bare,
        Tree.dropUids, keptUid_eq]
  | .list tag line ts, _, h => by
    cases h with
    | list id _ _ ss _ hitems =>
      simp only [written, writtenItems_of_mirrors ts ss hitems, Option.map_some, Tree.bare,
        Tree.dropUids]
  | .raw .., _, h | .ints .., _, h | .reals .., _, h => by cases h; rfl

theorem writtenPairs_of_mirrors : ∀ (qs : List (String × Tree)) (ps : List (String × Shape)),
    ps.map Prod.fst = qs.map Prod.fst → MirrorsList (ps.map Prod.snd) (qs.map Prod.snd) →
    writtenPairs used ps = some (Tree.dropUidsPairs (fun u => !used u) (Tree.barePairs qs))
  | [], [], _, _ => rfl
  | (k, t) :: qs, (k', s) :: ps, hkeys, h => by
    simp only [List.map_cons, List.cons.injEq] at hkeys h
    obtain ⟨rfl, hkeys⟩ := hkeys
    cases h with
    | cons hs hrest =>
      simp only [writtenPairs, written_of_mirrors t hs, writtenPairs_of_mirrors qs ps hkeys hrest,
        Tree.barePairs, Tree.dropUidsPairs, Option.bind_eq_bind, Option.bind_some, Option.pure_def]
  | [], _ :: _, hkeys, _ | _ :: _, [], hkeys, _ => by simp at hkeys

theorem writtenItems_of_mirrors : ∀ (ts : List Tree) (ss : List Shape), MirrorsList ss ts →
    writtenItems used ss = some (Tree.dropUidsItems (fun u => !used u) (Tree.bareItems ts))
  | [], _, h => by cases h; rfl
  | t :: ts, _, h => by
    cases h with
    | cons hs hrest =>
      simp only [writtenItems, written_of_mirrors t hs, writtenItems_of_mirrors ts _ hrest,
        Tree.bareItems, Tree.dropUidsItems, Option.bind_eq_bind, Option.bind_some, Option.pure_def]
end

end Shape

/-! ## The round trip -/

/-- A writer given a usage leaves undeclared exactly the UIDs no reference counts. -/
theorem Usage.not_declares_some (u : Usage) :
    (fun uid => !Usage.declares (some u) uid) = fun uid => u.count uid == 0 := by
  funext uid
  by_cases h : u.count uid = 0 <;> simp [Usage.declares, h, Nat.pos_iff_ne_zero]

namespace Graph

theorem binaryWith_eq (g : Graph) (usage : Option Usage) (root : NodeId) :
    g.binaryWith usage root = Wire.header ++ Wire.chunk (Usage.declares usage) (g.walk {} root).1 :=
  rfl

/-- **A document whose walk starts at a structure reads back from its binary form** as what
the chunks of the walk read back as, whatever its sharing and cycles, when the counts of that
tree fit. -/
theorem ofBinary_binaryWith_written (usage : Option Usage) {g : Graph} {root : NodeId}
    {id : NodeId} {tag uid : String} {line : Nat} {ps : List (String × Shape)} {t : Tree}
    (hs : (g.walk {} root).1 = .struct id tag uid line ps)
    (hwritten : (g.walk {} root).1.written (Usage.declares usage) = some t)
    (hfit : t.countsFit = true) :
    Tree.ofBinary ⟨(g.binaryWith usage root).toArray⟩ = .ok t := by
  have hchunk := binaryWith_eq g usage root
  have hsize : (⟨(g.binaryWith usage root).toArray⟩ : ByteArray).size =
      (g.binaryWith usage root).length := List.size_toArray
  rw [hs] at hwritten hchunk
  generalize Usage.declares usage = used at hwritten hchunk
  simp only [Shape.written] at hwritten
  simp only [Wire.chunk] at hchunk
  -- the UID written is the structure's own or the null UID, read back as it is
  generalize (if (uid != nullUid && used uid) = true then uid else nullUid) = u at hwritten hchunk
  obtain ⟨ts, hts, rfl⟩ := Option.map_eq_some_iff.1 hwritten
  simp only [Tree.countsFit, Bool.and_eq_true] at hfit
  obtain ⟨⟨⟨htag, hu⟩, hn⟩, hps⟩ := hfit
  rw [Shape.writtenPairs_length used hts] at hn
  have hbytes : (⟨(g.binaryWith usage root).toArray⟩ : ByteArray).data.toList =
      Wire.header ++ Wire.ChunkKind.struct.code :: (Wire.stringBytes tag ++
        (Wire.stringBytes u ++ (Wire.countBytes ps.length ++ Wire.pairChunks used ps))) := by
    rw [List.toList_toArray, hchunk]
    simp only [List.cons_append, List.append_assoc]
  have hfuel : (Wire.pairChunks used ps).length ≤
      (⟨(g.binaryWith usage root).toArray⟩ : ByteArray).size := by
    rw [hsize, hchunk]
    simp only [List.length_append, List.length_cons]
    omega
  rw [Tree.ofBinary, Wire.Reader.document_run hbytes
    (Wire.Reader.structureBody_reads htag hu hn (Wire.Reader.pairs_reads used ps hts hps (by omega)))]

/-- **A tree-shaped document reads back from its binary form** as its tree without lines and
links, with `#NULL` for every UID the writer does not declare. -/
theorem ofBinary_binaryWith_usage (usage : Option Usage) {g : Graph} {root : NodeId}
    {tag uid : String} {line : Nat} {pairs : List (String × Tree)}
    (htree : (g.walk {} root).1.Mirrors (.struct tag uid line pairs))
    (hfit : (Tree.struct tag uid line pairs).countsFit = true) :
    Tree.ofBinary ⟨(g.binaryWith usage root).toArray⟩ =
      .ok ((Tree.struct tag uid line pairs).bare.dropUids fun u => !Usage.declares usage u) := by
  have hwritten := Shape.written_of_mirrors (Usage.declares usage) _ htree
  cases hs : (g.walk {} root).1 with
  | struct id _ _ _ ps =>
    exact ofBinary_binaryWith_written usage hs hwritten
      (Tree.countsFit_dropUids_bare (fun u => !Usage.declares usage u) _ hfit)
  | _ => rw [hs] at htree; cases htree

/-- **The binary round trip.** A document whose walk is a tree rooted at a structure reads back
from its binary form as that tree, bit for bit, without its lines and links. Written declaring
only the UIDs it references, it reads back with `#NULL` for every UID no reference counts. -/
theorem binary_round_trip {g : Graph} {root : NodeId} {tag uid : String} {line : Nat}
    {pairs : List (String × Tree)}
    (htree : (g.walk {} root).1.Mirrors (.struct tag uid line pairs))
    (hfit : (Tree.struct tag uid line pairs).countsFit = true) :
    Tree.ofBinary ⟨(g.binaryWith none root).toArray⟩ = .ok (Tree.struct tag uid line pairs).bare ∧
    Tree.ofBinary ⟨(g.binary root).toArray⟩ =
      .ok ((Tree.struct tag uid line pairs).bare.dropUids fun u => (g.usage root).count u == 0) := by
  constructor
  · have h := ofBinary_binaryWith_usage none htree hfit
    simpa only [Usage.declares, Bool.not_true, Tree.dropUids_false] using h
  · rw [← Usage.not_declares_some]
    exact ofBinary_binaryWith_usage (some (g.usage root)) htree hfit

/-- A structure holding a NaN with a payload, a list with a negative integer, and a negative
zero in a real array. -/
def payloadDocument : Tree :=
  .struct "a" "#A" 3 [("x", .scalar (.real ⟨0x7FF8000000000001⟩) 1),
    ("l", .list "" 2 [.scalar (.int (-5)) 2]), ("r", .reals "" 4 [⟨0x8000000000000000⟩])]

/-- The payload document, planted in an empty graph, comes back bit for bit, its UID kept. -/
theorem binary_round_trip_planted :
    payloadDocument.countsFit = true ∧
    Tree.ofBinary ⟨((plantRoot {} payloadDocument).1.binaryWith none
        (plantRoot {} payloadDocument).2).toArray⟩ = .ok payloadDocument.bare := by
  refine ⟨by decide, ?_⟩
  exact (binary_round_trip (mirrors_walk_plantRoot {} _ _ _ _) (by decide)).1

end Graph

end GraphDoc
