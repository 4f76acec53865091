import GraphDoc.Text.Write
import GraphDoc.Proofs.BinaryRoundTrip
/-! # Writers declare exactly the referenced UIDs

A writer given the usage of a document declares a structure's UID (the line `ID = u` in text,
`u` rather than `#NULL` in the UID field of a binary structure chunk) only where the usage
counts a reference to it. The usage is collected from the same walk the writer writes, and a
reference is written in two ways: a UID reference is written as its name, and a structure
reached again as its bare UID. `Shape.referenced` lists those names in walk order.

* Counting one more reference to a UID adds one to its count and leaves every other count as
  it was (`Usage.count_bump`).
* The usage collected from a walk counts each UID other than `#NULL` as often as the walk
  writes it as a reference, and `#NULL` never (`Shape.count_collectUsage`).
* So a writer declares exactly the UIDs, other than `#NULL`, that its own output writes as
  references, and the text and the binary form of a document are the walk written with that
  set (`Graph.declared_iff_referenced`).
-/
namespace GraphDoc

namespace Usage

theorem count_eq (u : Usage) (uid : String) :
    u.count uid = ((u.counts.find? (·.1 == uid)).map Prod.snd).getD 0 := by
  unfold count
  cases u.counts.find? (·.1 == uid) <;> rfl

/-- **Counting one more reference** adds one to the count of that UID and leaves the others. -/
theorem count_bump (u : Usage) (x y : String) :
    (u.bump x).count y = u.count y + if x = y then 1 else 0 := by
  rw [count_eq, count_eq]
  unfold bump
  split
  · next hx =>
    -- an entry for `x` is there: every such entry goes up by one, the keys stay
    rw [List.find?_map]
    have hkeys : ((fun p : String × Nat => p.1 == y) ∘
        fun (p : String × Nat) => if p.1 == x then (p.1, p.2 + 1) else (p.1, p.2)) =
        (·.1 == y) := by
      funext ⟨k, n⟩
      simp only [Function.comp_apply]
      split <;> rfl
    simp only [hkeys, Option.map_map]
    cases hfind : u.counts.find? (·.1 == y) with
    | none =>
      have hxy : x ≠ y := by
        rintro rfl
        obtain ⟨p, hp, hpx⟩ := List.any_eq_true.1 hx
        exact absurd hfind (List.find?_isSome.2 ⟨p, hp, hpx⟩ |> Option.isSome_iff_ne_none.1)
      simp [hxy]
    | some p =>
      have hp : p.1 = y := by simpa using List.find?_some hfind
      by_cases hxy : x = y
      · subst hxy
        simp [hp]
      · simp [hp, hxy, Ne.symm hxy]
  · next hx =>
    -- no entry for `x`: one is added at the end with count one
    rw [List.find?_append]
    cases hfind : u.counts.find? (·.1 == y) with
    | some p =>
      have hp : p.1 = y := by simpa using List.find?_some hfind
      have hxy : x ≠ y := by
        rintro rfl
        exact hx (List.any_eq_true.2 ⟨p, List.mem_of_find?_eq_some hfind, by simp [hp]⟩)
      simp [hxy]
    | none =>
      by_cases hxy : x = y
      · subst hxy
        simp
      · simp [hxy]

end Usage

namespace Shape

mutual
/-- The UIDs a walk is written with as references, in walk order: the name of every UID
reference, and the UID of every structure reached again. -/
def referenced : Shape → List String
  | .scalar (.uid name _) _ => [name]
  | .scalar _ _ => []
  | .struct _ _ _ _ pairs => referencedPairs pairs
  | .list _ _ _ items => referencedItems items
  | .again _ n =>
    match n.body with
    | .struct uid _ => [uid]
    | _ => []
  | _ => []

/-- The references written among the values of pairs. -/
def referencedPairs : List (String × Shape) → List String
  | [] => []
  | (_, s) :: rest => referenced s ++ referencedPairs rest

/-- The references written among items. -/
def referencedItems : List Shape → List String
  | [] => []
  | s :: rest => referenced s ++ referencedItems rest
end

/-- Counting a reference that is written, as the collector does: `#NULL` is no reference. -/
theorem count_bumpUnlessNull (u : Usage) (x y : String) :
    (if x == nullUid then u else u.bump x).count y =
      u.count y + if y = nullUid then 0 else [x].count y := by
  rw [List.count_singleton]
  by_cases hx : x = nullUid
  · subst hx
    by_cases hy : y = nullUid
    · simp [hy]
    · simp [hy, Ne.symm hy]
  · rw [if_neg (by simpa using hx), Usage.count_bump]
    by_cases hy : y = nullUid
    · subst hy
      simp [hx]
    · by_cases hxy : x = y <;> simp [hy, hxy]

mutual
/-- **The usage of a walk counts its references**: every UID other than `#NULL` as often as
the walk is written with it as a reference, and `#NULL` never. -/
theorem count_collectUsage : ∀ (s : Shape) (u : Usage) (y : String),
    (s.collectUsage u).count y = u.count y + if y = nullUid then 0 else s.referenced.count y
  | .scalar (.uid name _) _, u, y => by
    rw [collectUsage, referenced, count_bumpUnlessNull]
  | .scalar (.bool _) _, u, y | .scalar (.int _) _, u, y | .scalar (.real _) _, u, y
  | .scalar (.str _) _, u, y | .scalar (.ident _) _, u, y => by
    simp [collectUsage, referenced]
  | .struct _ _ _ _ pairs, u, y => by
    rw [collectUsage, referenced, count_collectUsagePairs]
  | .list _ _ _ items, u, y => by
    rw [collectUsage, referenced, count_collectUsageItems]
  | .leaf _ _, u, y | .missing, u, y => by simp [collectUsage, referenced]
  | .again _ ⟨_, _, body⟩, u, y => by
    cases body with
    | struct uid _ => simp only [collectUsage, referenced]; exact count_bumpUnlessNull u uid y
    | list | raw | ints | reals => simp [collectUsage, referenced]

theorem count_collectUsagePairs : ∀ (ps : List (String × Shape)) (u : Usage) (y : String),
    (collectUsagePairs u ps).count y =
      u.count y + if y = nullUid then 0 else (referencedPairs ps).count y
  | [], u, y => by simp [collectUsagePairs, referencedPairs]
  | (_, s) :: rest, u, y => by
    rw [collectUsagePairs, referencedPairs, count_collectUsagePairs rest, count_collectUsage s,
      List.count_append]
    split <;> omega

theorem count_collectUsageItems : ∀ (ss : List Shape) (u : Usage) (y : String),
    (collectUsageItems u ss).count y =
      u.count y + if y = nullUid then 0 else (referencedItems ss).count y
  | [], u, y => by simp [collectUsageItems, referencedItems]
  | s :: rest, u, y => by
    rw [collectUsageItems, referencedItems, count_collectUsageItems rest, count_collectUsage s,
      List.count_append]
    split <;> omega
end

theorem count_empty (uid : String) : ({} : Usage).count uid = 0 := rfl

/-- The usage collected from a walk declares exactly the UIDs, other than `#NULL`, that the walk
is written with as references. -/
theorem declares_collectUsage (s : Shape) :
    Usage.declares (some (s.collectUsage {})) =
      fun uid => uid != nullUid && s.referenced.contains uid := by
  funext uid
  simp only [Usage.declares, count_collectUsage, count_empty, Nat.zero_add]
  by_cases hu : uid = nullUid
  · simp [hu]
  · simp [hu, List.count_pos_iff]

end Shape

namespace Graph

/-- The usage of a document declares exactly the UIDs, other than `#NULL`, that the walk of the
document is written with as references. -/
theorem declares_usage (g : Graph) (root : NodeId) :
    Usage.declares (some (g.usage root)) =
      fun uid => uid != nullUid && (g.walk {} root).1.referenced.contains uid :=
  Shape.declares_collectUsage _

theorem text_eq (g : Graph) (root : NodeId) :
    g.text root = TextWrite.header {} ++
      TextWrite.shape {} (Usage.declares (some (g.usage root))) 0 (g.walk {} root).1 ++ "\n" := by
  simp [text, textWith, TextWriter.writeHeader, TextWriter.writeRoot]

/-- **Writers declare exactly the referenced UIDs.** A UID is declared where the usage of the
document says so exactly when it is not `#NULL` and the walk of the document is written with it
as a reference; and the text and the binary form of the document are that walk written
declaring exactly those UIDs. Both writers and the usage follow one walk, so the structure
whose `ID` line is written is the one whose repeats and references the usage counted. -/
theorem declared_iff_referenced (g : Graph) (root : NodeId) :
    (∀ uid, Usage.declares (some (g.usage root)) uid = true ↔
      uid ≠ nullUid ∧ uid ∈ (g.walk {} root).1.referenced) ∧
    g.text root = TextWrite.header {} ++
      TextWrite.shape {} (fun u => u != nullUid && (g.walk {} root).1.referenced.contains u) 0
        (g.walk {} root).1 ++ "\n" ∧
    g.binary root = Wire.header ++
      Wire.chunk (fun u => u != nullUid && (g.walk {} root).1.referenced.contains u)
        (g.walk {} root).1 := by
  refine ⟨fun uid => ?_, ?_, ?_⟩
  · rw [declares_usage]
    simp
  · rw [text_eq, declares_usage]
  · rw [binary, binaryWith_eq, declares_usage]

end Graph

end GraphDoc
