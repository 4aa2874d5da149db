import Sargantana.DracPkg

-- pseudoLRU: a binary tree of bits over ENTRIES entries, `levels` levels deep.
namespace Sargantana.PseudoLru

-- plru_tree_q
abbrev Tree := Nat → Bool

def reset : Tree := fun _ => false

-- The node of entry i on a level, and the side of it that the entry lies on
def node (levels lvl i : Nat) : Nat := 2 ^ lvl - 1 + i / 2 ^ (levels - lvl)

def side (levels lvl i : Nat) : Bool := decide (i / 2 ^ (levels - lvl - 1) % 2 = 1)

-- A hit turns the nodes of its entry away from it.
def touch (levels : Nat) (tree : Tree) (i : Nat) : Tree := fun k =>
  match (List.range levels).find? fun lvl => node levels lvl i == k with
  | some lvl => !side levels lvl i
  | none => tree k

def replaceEn (levels : Nat) (tree : Tree) (i : Nat) : Bool :=
  (List.range levels).all fun lvl => tree (node levels lvl i) == side levels lvl i

def replacementIdx (n levels : Nat) [NeZero n] (tree : Tree) : Fin n :=
  Fin.ofNat n (((List.range n).find? (replaceEn levels tree)).getD 0)

def next (levels : Nat) (tree : Tree) (accessHit : Bool) (accessIdx : Nat) : Tree :=
  if accessHit then touch levels tree accessIdx else tree

end Sargantana.PseudoLru
