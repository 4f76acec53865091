import GraphDoc.Proofs.ParseTokens
/-! # The text round trip

A document whose structures and lists are each reached along one path only, and whose names,
UIDs and numbers the grammar can spell, is written as text and read back as the tree it is:
the same tags, UIDs, keys in order and scalars, reals as their exact bit patterns. What text
does not hold is lost: the source lines, and the links of UID references. When the writer
declares only the UIDs that are referenced, the others read back as `#NULL`.

* The written text lexes as the header's tokens and the tree's (`Scan.lexed_textWith`), and
  those tokens parse as the document (`Parse.document_views`); together they give the round
  trip for any usage (`ofString_textWith_usage`) and for the two ways text is written
  (`text_round_trip`).
-/
namespace GraphDoc

namespace Graph

theorem isEmpty_of_isTag {tag : String} (h : Scan.isTag tag = true) : tag.isEmpty = false := by
  cases he : tag.isEmpty
  · rfl
  · rw [String.isEmpty_iff.1 he] at h
    exact absurd h (by decide)

/-- **A tree-shaped document reads back from its text** as its tree without lines and links,
with `#NULL` for every UID the writer does not declare. -/
theorem ofString_textWith_usage (usage : Option Usage) {g : Graph} {root : NodeId}
    {o : TextOptions} {tag uid : String} {line : Nat} {pairs : List (String × Tree)}
    (htree : (g.walk {} root).1.Mirrors (.struct tag uid line pairs))
    (htag : Scan.isTag tag = true) (hw : (Tree.struct tag uid line pairs).writable = true)
    (ho : o.writable = true) :
    ∃ p, Parsed.ofString (g.textWith o usage root) = .ok p ∧ p.formatName = o.formatName ∧
      p.root.bare = (Tree.struct tag uid line pairs).bare.dropUids
        fun u => !Usage.declares usage u := by
  obtain ⟨ts, n, hlex, hv⟩ := Scan.lexed_textWith ho usage htree hw
  obtain ⟨p, hp, hname, hroot⟩ := Parse.document_views (Usage.declares usage)
    (show (⟨ts, .endOfText n⟩ : Lexed).ending = .endOfText n from rfl) (isEmpty_of_isTag htag) hw hv
  exact ⟨p, by rw [Parsed.ofString, hlex, hp], hname, hroot⟩

/-- **The text round trip.** A document whose walk is a tree rooted at a tagged structure,
with tags, keys, identifiers and UIDs the grammar spells, finite reals and no empty real array,
reads back from its text, written with an indent of blanks and a header name that is a word,
as that tree without its lines and links. Written declaring only the UIDs it references, it
reads back with `#NULL` for every UID no reference counts. -/
theorem text_round_trip {g : Graph} {root : NodeId} {tag uid : String} {line : Nat}
    {pairs : List (String × Tree)} (o : TextOptions)
    (htree : (g.walk {} root).1.Mirrors (.struct tag uid line pairs))
    (htag : Scan.isTag tag = true) (hw : (Tree.struct tag uid line pairs).writable = true)
    (ho : o.writable = true) :
    (∃ p, Parsed.ofString (g.textWith o none root) = .ok p ∧ p.formatName = o.formatName ∧
      p.root.bare = (Tree.struct tag uid line pairs).bare) ∧
    ∃ p, Parsed.ofString (g.text root) = .ok p ∧
      p.root.bare = (Tree.struct tag uid line pairs).bare.dropUids
        fun u => (g.usage root).count u == 0 := by
  constructor
  · obtain ⟨p, hp, hname, hroot⟩ := ofString_textWith_usage none htree htag hw ho
    refine ⟨p, hp, hname, ?_⟩
    simpa only [Usage.declares, Bool.not_true, Tree.dropUids_false] using hroot
  · obtain ⟨p, hp, -, hroot⟩ :=
      ofString_textWith_usage (some (g.usage root)) htree htag hw (o := {}) (by decide)
    rw [Usage.not_declares_some] at hroot
    exact ⟨p, hp, hroot⟩

/-- A document with a real, a tagged list holding a negative integer and a rawtext block that
contains its own closing delimiter, a real array with a negative zero, a string with a quote
and a line break, and a reference to its own UID. -/
def sampleDocument : Tree :=
  .struct "<Doc>" "#A" 1 [("x", .scalar (.real ⟨0x3FB999999999999A⟩) 2),
    ("l", .list "<L>" 3 [.scalar (.int (-5)) 4, .raw "" 5 "a>\x7db"]),
    ("r", .reals "" 6 [⟨0x8000000000000000⟩, ⟨0x4059000000000000⟩]),
    ("s", .scalar (.str "q\"\n") 7), ("u", .scalar (.uid "#A" none) 8)]

/-- The sample document, planted in an empty graph, reads back from both of its texts. -/
theorem text_round_trip_planted :
    Scan.isTag "<Doc>" = true ∧ sampleDocument.writable = true ∧
    ({} : TextOptions).writable = true ∧
    ((∃ p, Parsed.ofString ((plantRoot {} sampleDocument).1.textWith {} none
        (plantRoot {} sampleDocument).2) = .ok p ∧
      p.formatName = "VLX" ∧ p.root.bare = sampleDocument.bare) ∧
    ∃ p, Parsed.ofString ((plantRoot {} sampleDocument).1.text (plantRoot {} sampleDocument).2) =
        .ok p ∧
      p.root.bare = sampleDocument.bare.dropUids
        fun u => ((plantRoot {} sampleDocument).1.usage (plantRoot {} sampleDocument).2).count u == 0) :=
  ⟨by decide, by decide +kernel, by decide,
    text_round_trip {} (mirrors_walk_plantRoot {} _ _ _ _) (by decide) (by decide +kernel)
      (by decide)⟩

end Graph

end GraphDoc
