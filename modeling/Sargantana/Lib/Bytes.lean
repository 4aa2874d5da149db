import Sargantana.DracPkg
import Mathlib.Data.List.Induction

namespace Sargantana.Bytes

def byteAt (v : BitVec w) (k : Nat) : BitVec 8 := v.extractLsb' (8 * k) 8

theorem byteAt_getLsbD (v : BitVec w) (k i : Nat) : (byteAt v k).getLsbD i = (decide (i < 8) && v.getLsbD (8 * k + i)) := by
  simp [byteAt]

theorem byteAt_setWidth {v : BitVec w} (fits : 8 * k + 8 ≤ n) : byteAt (v.setWidth n) k = byteAt v k := by
  apply BitVec.eq_of_getLsbD_eq
  intro i small
  rw [byteAt_getLsbD,byteAt_getLsbD,BitVec.getLsbD_setWidth]
  have inside : 8 * k + i < n := by omega
  simp [inside]

theorem byteAt_shiftLeft {v : BitVec w} (fits : 8 * (m + k) + 8 ≤ w) : byteAt (v <<< (8 * m)) (m + k) = byteAt v k := by
  apply BitVec.eq_of_getLsbD_eq
  intro i small
  rw [byteAt_getLsbD,byteAt_getLsbD,BitVec.getLsbD_shiftLeft]
  have inside : 8 * (m + k) + i < w := by omega
  have above : ¬ 8 * (m + k) + i < 8 * m := by omega
  have place : 8 * (m + k) + i - 8 * m = 8 * k + i := by omega
  simp [inside,above,place]

theorem byteAt_shiftRight {v : BitVec w} : byteAt (v >>> (8 * m)) k = byteAt v (m + k) := by
  apply BitVec.eq_of_getLsbD_eq
  intro i small
  rw [byteAt_getLsbD,byteAt_getLsbD,BitVec.getLsbD_ushiftRight]
  have place : 8 * m + (8 * k + i) = 8 * (m + k) + i := by omega
  rw [place]

-- A word enters a line from above and pushes the rest down.
def shiftIn (line : BitVec w) (word : BitVec v) : BitVec w := (word ++ line).extractLsb' v w

theorem shiftIn_append (line : BitVec (v + r)) (word : BitVec v) : word ++ line.extractLsb' v r = shiftIn line word := by
  apply BitVec.eq_of_getLsbD_eq
  intro i small
  rw [shiftIn,BitVec.getLsbD_extractLsb',BitVec.getLsbD_append,BitVec.getLsbD_append,BitVec.getLsbD_extractLsb']
  by_cases below : i < r
  · have low : v + i < v + r := by omega
    simp [below,small]
  · have high : ¬ v + i < v + r := by omega
    have place : v + i - (v + r) = i - r := by omega
    simp [below,small,place]

theorem shiftIn_byte {line : BitVec (8 * n)} {word : BitVec (8 * m)} (fits : m ≤ n) (inside : k < n) :
    byteAt (shiftIn line word) k = if k < n - m then byteAt line (m + k) else byteAt word (k - (n - m)) := by
  apply BitVec.eq_of_getLsbD_eq
  intro i small
  rw [byteAt_getLsbD,shiftIn,BitVec.getLsbD_extractLsb',BitVec.getLsbD_append]
  have within : 8 * k + i < 8 * n := by omega
  by_cases below : k < n - m
  · have low : 8 * m + (8 * k + i) < 8 * n := by omega
    have place : 8 * m + (8 * k + i) = 8 * (m + k) + i := by omega
    rw [if_pos below,if_pos low,byteAt_getLsbD,place]
    simp [within]
  · have high : ¬ 8 * m + (8 * k + i) < 8 * n := by omega
    have place : 8 * m + (8 * k + i) - 8 * n = 8 * (k - (n - m)) + i := by omega
    rw [if_neg below,if_neg high,byteAt_getLsbD,place]
    simp [within]

def gather (words : List (BitVec v)) : BitVec w := words.foldl shiftIn 0

theorem gather_snoc (words : List (BitVec v)) (word : BitVec v) : gather (w := w) (words ++ [word]) = shiftIn (gather words) word := by
  simp [gather]

theorem gather_byte {words : List (BitVec (8 * m))} (fits : m * words.length ≤ n) (at' : words[k]? = some word) (lane : l < m) :
    byteAt (gather words : BitVec (8 * n)) (n - m * words.length + m * k + l) = byteAt word l := by
  induction words using List.reverseRecOn generalizing k with
  | nil => simp at at'
  | append_singleton words last ih =>
    have bound := (List.getElem?_eq_some_iff.mp at').1
    rw [List.length_append,List.length_singleton] at bound fits ⊢
    rw [Nat.mul_add,Nat.mul_one] at fits ⊢
    by_cases earlier : k < words.length
    · have before : m * k + m ≤ m * words.length := Nat.mul_le_mul_left m earlier
      rw [gather_snoc,shiftIn_byte (by omega) (by omega),if_pos (by omega)]
      rw [List.getElem?_append_left earlier] at at'
      have place : m + (n - (m * words.length + m) + m * k + l) = n - m * words.length + m * k + l := by omega
      rw [place]
      exact ih (by omega) at'
    · have here : k = words.length := by omega
      subst here
      rw [List.getElem?_concat_length,Option.some.injEq] at at'
      rw [gather_snoc,shiftIn_byte (by omega) (by omega),if_neg (by omega),at']
      congr 1
      omega

end Sargantana.Bytes
