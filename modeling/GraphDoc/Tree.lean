import GraphDoc.Ieee.Binary
/-! # Document trees

A document is a tagged structure of key–value pairs, whose values are scalars or containers:
structures, lists, rawtext blocks and arrays of integers or reals. A `Tree` is a document
without sharing, as text and binary input produce it. Every value records the source line it
came from (zero when it came from elsewhere); `Tree.same` compares documents as their readers
see them, ignoring lines, comparing reals as numbers and UID references by name. -/
namespace GraphDoc

/-- The UID a structure has when it declares none. -/
def nullUid : String := "#NULL"

/-- Index of a container in a graph. -/
abbrev NodeId := Nat

/-- A value that is not a container. A UID reference names the UID of a structure and, once
linked, holds the structure it was resolved to. -/
inductive Scalar where
  | bool (b : Bool)
  | int (n : Int64)
  | real (x : Binary64)
  | str (s : String)
  | ident (s : String)
  | uid (name : String) (target : Option NodeId)
deriving DecidableEq, Repr, Inhabited

/-- Equality of scalars as documents see it: reals compare as numbers, and a UID reference
by its name alone. -/
def Scalar.same : Scalar → Scalar → Bool
  | .bool a, .bool b => a == b
  | .int a, .int b => a == b
  | .real a, .real b => a.ieeeEq b
  | .str a, .str b => a == b
  | .ident a, .ident b => a == b
  | .uid a _, .uid b _ => a == b
  | _, _ => false

/-- A document without sharing. Containers carry a tag (empty when absent) and the line of
the token that opened them. -/
inductive Tree where
  | scalar (s : Scalar) (line : Nat)
  | struct (tag uid : String) (line : Nat) (pairs : List (String × Tree))
  | list (tag : String) (line : Nat) (items : List Tree)
  | raw (tag : String) (line : Nat) (text : String)
  | ints (tag : String) (line : Nat) (values : List Int64)
  | reals (tag : String) (line : Nat) (values : List Binary64)
deriving Repr, Inhabited

namespace Tree

/-- Element-wise equality of two lists of reals, as numbers. -/
def sameReals : List Binary64 → List Binary64 → Bool
  | [], [] => true
  | x :: xs, y :: ys => x.ieeeEq y && sameReals xs ys
  | _, _ => false

mutual
/-- Equality of documents, ignoring lines: tags, UIDs, keys and values in order. -/
def same : Tree → Tree → Bool
  | .scalar a _, .scalar b _ => a.same b
  | .struct t u _ ps, .struct t' u' _ ps' => t == t' && u == u' && samePairs ps ps'
  | .list t _ xs, .list t' _ xs' => t == t' && sameItems xs xs'
  | .raw t _ s, .raw t' _ s' => t == t' && s == s'
  | .ints t _ xs, .ints t' _ xs' => t == t' && xs == xs'
  | .reals t _ xs, .reals t' _ xs' => t == t' && sameReals xs xs'
  | _, _ => false

/-- Pair-wise equality of the pairs of two structures. -/
def samePairs : List (String × Tree) → List (String × Tree) → Bool
  | [], [] => true
  | (k, v) :: ps, (k', v') :: ps' => k == k' && same v v' && samePairs ps ps'
  | _, _ => false

/-- Element-wise equality of the items of two lists. -/
def sameItems : List Tree → List Tree → Bool
  | [], [] => true
  | v :: vs, v' :: vs' => same v v' && sameItems vs vs'
  | _, _ => false
end

end Tree

end GraphDoc
