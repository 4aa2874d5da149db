import Mathlib.Algebra.GroupWithZero.Nat

-- Sv39 address translation: three levels of tables of 512 words, read from physical memory.
namespace Sargantana.Sv39

def ppn (word : BitVec 64) : Nat := word.toNat / 2 ^ 10 % 2 ^ 44

def V (word : BitVec 64) : Bool := word.getLsbD 0
def R (word : BitVec 64) : Bool := word.getLsbD 1
def W (word : BitVec 64) : Bool := word.getLsbD 2
def X (word : BitVec 64) : Bool := word.getLsbD 3
def U (word : BitVec 64) : Bool := word.getLsbD 4
def A (word : BitVec 64) : Bool := word.getLsbD 6
def D (word : BitVec 64) : Bool := word.getLsbD 7

-- Bits 63 to 54 have no meaning here.
def reserved (word : BitVec 64) : Bool := decide (word >>> 54 ≠ 0)

-- Pages of a level, in pages of 4 KiB; level 0 is the root.
def span (level : Nat) : Nat := 2 ^ (9 * (2 - level))

-- What a page table says about a virtual page: a page fault, or the word of a leaf and its level
inductive Mapping where
  | fault
  | page (word : BitVec 64) (level : Nat)
  deriving DecidableEq

def walk (memory : Nat → BitVec 64) (vpn : Nat) : Nat → Nat → Mapping
  | left, table =>
    let level := 2 - left
    let word := memory (table * 4096 + vpn / span level % 512 * 8)
    if !V word || (W word && !R word) || reserved word then .fault
    else if R word || X word then
      if ppn word % span level = 0 then .page word level else .fault
    else if D word || A word || U word then .fault
    else match left with
      | 0 => .fault
      | left + 1 => walk memory vpn left (ppn word)

-- What one word says at a level: it points to the next table, or the walk ends with it.
def descends (word : BitVec 64) (level : Nat) : Bool :=
  V word && !(R word || W word || X word) && !reserved word && !(D word || A word || U word) && decide (level < 2)

def ending (word : BitVec 64) (level : Nat) : Mapping :=
  if !V word || (W word && !R word) || reserved word then .fault
  else if R word || X word then
    if ppn word % span level = 0 then .page word level else .fault
  else .fault

theorem walk_step (memory : Nat → BitVec 64) (vpn left table : Nat) :
    walk memory vpn left table =
      if descends (memory (table * 4096 + vpn / span (2 - left) % 512 * 8)) (2 - left) then
        walk memory vpn (left - 1) (ppn (memory (table * 4096 + vpn / span (2 - left) % 512 * 8)))
      else ending (memory (table * 4096 + vpn / span (2 - left) % 512 * 8)) (2 - left) := by
  conv => lhs; unfold walk
  unfold ending descends
  dsimp only
  generalize memory (table * 4096 + vpn / span (2 - left) % 512 * 8) = word
  cases left with
  | zero =>
      cases V word <;> cases R word <;> cases W word <;> cases X word <;> cases reserved word <;>
        cases D word <;> cases A word <;> cases U word <;> simp
  | succ left =>
      have below : 2 - (left + 1) < 2 := by omega
      rw [decide_eq_true below,Nat.add_sub_cancel]
      cases V word <;> cases R word <;> cases W word <;> cases X word <;> cases reserved word <;>
        cases D word <;> cases A word <;> cases U word <;> simp

def translate (memory : Nat → BitVec 64) (root vpn : Nat) : Mapping := walk memory vpn 2 root

def physical (word : BitVec 64) (level vpn : Nat) : Nat := ppn word + vpn % span level

inductive Access where
  | fetch | load | store
  deriving DecidableEq

-- The permission bits of a leaf, for user or supervisor mode
def grants (word : BitVec 64) (supervisor sum mxr : Bool) (access : Access) : Bool :=
  (if supervisor then !U word || (sum && decide (access ≠ .fetch)) else U word) &&
  (match access with
    | .fetch => X word
    | .load => R word || (mxr && X word)
    | .store => W word)

-- The permission bits of a leaf and its A bit, for user or supervisor mode
def allows (word : BitVec 64) (supervisor sum mxr : Bool) (access : Access) : Bool :=
  (if supervisor then !U word || (sum && decide (access ≠ .fetch)) else U word) &&
  (match access with
    | .fetch => X word
    | .load => R word || (mxr && X word)
    | .store => W word) && A word

-- A store needs the D bit as well.
def permits (word : BitVec 64) (supervisor sum mxr : Bool) (access : Access) : Bool :=
  allows word supervisor sum mxr access && (decide (access ≠ .store) || D word)

def faults (m : Mapping) (supervisor sum mxr : Bool) (access : Access) : Bool :=
  match m with
  | .fault => true
  | .page word _ => !permits word supervisor sum mxr access

end Sargantana.Sv39
