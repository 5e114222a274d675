import Mathlib.Data.List.GetD
import Btclib.Blocks.Block

/-!
# The loop of `merkle_root`

`merkleLoop` is the `while len(hashes) != 1` loop of `merkle_root` on a
non-empty level, where it stops. To say what the loop does on every input,
`merkleWhile` runs the same loop for at most `fuel` passes and reports `none`
when the passes run out with more or less than one hash left.

**Termination.** One pass halves a level, rounding up (`length_merkleStep`), so
from `n ≥ 1` hashes the loop stops after `⌈log₂ n⌉` passes. The empty level is
a fixed point of a pass (`merkleStep_nil`) and its length is never 1, so on no
transactions the loop never stops.

**The tree.** `treeNode l h pos` is the node at height `h` and position
`pos` of the Merkle tree over the hashes `l`, defined by positions: a node hashes
its two children, and a child with no right sibling among the
`⌈n / 2^h⌉` nodes of its row is paired with itself. Each pass of the loop turns
row `h` into row `h + 1`, so the loop computes that tree's root.

**Duplicate-last padding.** A level of odd width is padded with a copy of its
last hash. So appending to a list of `m · 2^k` txids (`m` odd, at least 3) a
copy of its last `2^k` txids does not change the root: the copy stays aligned on
pairs and, `j` levels up, is a copy of the last `2^(k-j)` hashes, until at level
`k` it is exactly the hash that the padding adds.

**Results.**
* `merkleWhile_nil`: no number of passes ends the loop on the empty level.
* `merkleWhile_eq_merkleLoop`: more than `⌈log₂ n⌉` passes end it on `n ≥ 1`
  hashes, with `merkleLoop`'s result.
* `merkleWhile_eq_none_iff`: and no fewer do, so the loop body runs exactly
  `⌈log₂ n⌉` times.
* `merkleRoot_terminates_iff`: `merkle_root` returns exactly on non-empty lists.
* `iterate_merkleStep_eq_treeRow`: after `h` passes the loop holds row `h` of
  the tree; `merkleRootCons_eq_treeNode`: `merkle_root` is the tree's root.
* `merkleLoop_append_drop`: appending a copy of the last `2^k` hashes of
  `m · 2^k` hashes does not change the loop's result.
* `merkleRoot_append_duplicate`: the same for `merkle_root` of txids.
-/

namespace Btclib
namespace Blocks

section MerkleWhile

variable (H : Hashes)

/-- The `while len(hashes) != 1` loop of `merkle_root`, allowed `fuel` passes:
`none` when they run out before one hash is left. -/
def merkleWhile : Nat → List Bytes → Option Bytes
  | 0, _ => none
  | fuel + 1, hashes =>
      if hashes.length = 1 then hashes.head? else merkleWhile fuel (merkleStep H hashes)

/-- `merkle_root` with its loop allowed `fuel` passes. -/
def merkleRootRun (fuel : Nat) (txids : List Bytes) : Option Bytes :=
  (merkleWhile H fuel (txids.map List.reverse)).map List.reverse

/-- On the empty level the loop never stops. -/
theorem merkleWhile_nil : ∀ fuel, merkleWhile H fuel [] = none
  | 0 => rfl
  | fuel + 1 => by simpa [merkleWhile] using merkleWhile_nil fuel

/-- A pass of the loop from a level of length other than 1. -/
theorem merkleLoop_of_length_ne_one {hashes : List Bytes} (h : hashes ≠ [])
    (h1 : hashes.length ≠ 1) :
    merkleLoop H hashes h = merkleLoop H (merkleStep H hashes) (merkleStep_ne_nil H h) := by
  rw [merkleLoop, if_neg h1]

/-- More than `⌈log₂ n⌉` passes end the loop on `n ≥ 1` hashes, with the result
of `merkleLoop`. -/
theorem merkleWhile_eq_merkleLoop (hashes : List Bytes) (h : hashes ≠ []) :
    ∀ fuel, Nat.clog 2 hashes.length < fuel →
      merkleWhile H fuel hashes = some (merkleLoop H hashes h) := by
  induction hashes, h using merkleLoop.induct H with
  | case1 hashes h h1 =>
      rintro (_ | fuel) hf
      · omega
      obtain ⟨x, rfl⟩ := List.length_eq_one.1 h1
      simp [merkleWhile, merkleLoop]
  | case2 hashes h h1 ih =>
      rintro (_ | fuel) hf
      · omega
      have h2 : 2 ≤ hashes.length := by
        have := List.length_pos.2 h
        omega
      have hlen : (merkleStep H hashes).length = (hashes.length + 2 - 1) / 2 := by
        rw [length_merkleStep]; omega
      rw [Nat.clog_of_two_le (by norm_num) h2, ← hlen] at hf
      rw [merkleWhile, if_neg h1, merkleLoop_of_length_ne_one H h h1, ih fuel (by omega)]

/-- A pass from a level of length other than 1 takes one off `⌈log₂ n⌉`. -/
theorem clog_merkleStep {hashes : List Bytes} (h : hashes ≠ []) (h1 : hashes.length ≠ 1) :
    Nat.clog 2 hashes.length = Nat.clog 2 (merkleStep H hashes).length + 1 := by
  have h2 : 2 ≤ hashes.length := by
    have := List.length_pos.2 h
    omega
  rw [Nat.clog_of_two_le (by norm_num) h2, length_merkleStep]
  rfl

/-- At most `⌈log₂ n⌉` passes leave the loop running on `n ≥ 1` hashes. -/
theorem merkleWhile_of_le_clog (hashes : List Bytes) (h : hashes ≠ []) :
    ∀ fuel, fuel ≤ Nat.clog 2 hashes.length → merkleWhile H fuel hashes = none := by
  induction hashes, h using merkleLoop.induct H with
  | case1 hashes h h1 =>
      intro fuel hf
      rw [h1, Nat.clog_one_right, Nat.le_zero] at hf
      rw [hf, merkleWhile]
  | case2 hashes h h1 ih =>
      rintro (_ | fuel) hf
      · rfl
      rw [clog_merkleStep H h h1] at hf
      rw [merkleWhile, if_neg h1, ih fuel (by omega)]

/-- On `n ≥ 1` hashes the loop stops after exactly `⌈log₂ n⌉` passes: it runs
out of fuel exactly when it is allowed no more than that many, with the test
that ends it not counted. -/
theorem merkleWhile_eq_none_iff (hashes : List Bytes) (h : hashes ≠ []) (fuel : Nat) :
    merkleWhile H fuel hashes = none ↔ fuel ≤ Nat.clog 2 hashes.length := by
  refine ⟨fun hn => ?_, merkleWhile_of_le_clog H hashes h fuel⟩
  by_contra hf
  rw [merkleWhile_eq_merkleLoop H hashes h fuel (by omega)] at hn
  cases hn

theorem merkleWhile_eq_none_iff_at_six_hashes :
    [[1], [2], [3], [4], [5], [6]] ≠ ([] : List Bytes) ∧
      (merkleWhile paddingHashes 3 [[1], [2], [3], [4], [5], [6]] = none ↔
        3 ≤ Nat.clog 2 [[1], [2], [3], [4], [5], [6]].length) :=
  ⟨by simp, merkleWhile_eq_none_iff paddingHashes _ (by simp) 3⟩

/-- `merkle_root` returns after finitely many passes exactly on a non-empty
list of txids. -/
theorem merkleRoot_terminates_iff (txids : List Bytes) :
    (∃ fuel, merkleRootRun H fuel txids ≠ none) ↔ txids ≠ [] := by
  constructor
  · rintro ⟨fuel, hf⟩ rfl
    simp [merkleRootRun, merkleWhile_nil] at hf
  · intro h
    have hm : txids.map List.reverse ≠ [] := by simpa using h
    refine ⟨Nat.clog 2 (txids.map List.reverse).length + 1, ?_⟩
    rw [merkleRootRun, merkleWhile_eq_merkleLoop H _ hm _ (Nat.lt_succ_self _)]
    simp

end MerkleWhile

section MerkleTree

variable (H : Hashes)

/-- `⌈n / 2^h⌉`, the number of nodes at height `h` of a Merkle tree over `n` leaves. -/
def treeWidth (n h : Nat) : Nat := (n + 2 ^ h - 1) / 2 ^ h

/-- The node at height `h` and position `pos` of the Merkle tree over the
hashes `l`: the leaf itself at height 0, otherwise the hash of its two
children, a child with no right sibling being paired with itself. -/
def treeNode (l : List Bytes) : Nat → Nat → Bytes
  | 0, pos => l.getD pos []
  | h + 1, pos =>
      let left := treeNode l h (2 * pos)
      H.hash256 (left ++ if 2 * pos + 1 < treeWidth l.length h then treeNode l h (2 * pos + 1) else left)

/-- Row `h` of the tree, its nodes from left to right. -/
def treeRow (l : List Bytes) (h : Nat) : List Bytes :=
  (List.range (treeWidth l.length h)).map (treeNode H l h)

@[simp] theorem treeWidth_zero (n : Nat) : treeWidth n 0 = n := by
  simp [treeWidth]

/-- Each height halves the width, rounding up, as a pass of the loop does. -/
theorem treeWidth_succ (n h : Nat) : treeWidth n (h + 1) = (treeWidth n h + 1) / 2 := by
  have hp : 0 < 2 ^ h := Nat.pos_pow_of_pos h (by norm_num)
  rw [treeWidth, treeWidth, ← Nat.add_div_right _ hp, Nat.div_div_eq_div_mul, pow_succ]
  congr 1
  omega

/-- At height `⌈log₂ n⌉` one node is left. -/
theorem treeWidth_clog {n : Nat} (hn : 1 ≤ n) : treeWidth n (Nat.clog 2 n) = 1 := by
  have hle := Nat.le_pow_clog (by norm_num : 1 < 2) n
  exact Nat.div_eq_of_lt_le (by omega) (by omega)

theorem getD_pairHashes : ∀ (l : List Bytes) (i : Nat), i < l.length / 2 →
    (pairHashes H l).getD i [] = H.hash256 (l.getD (2 * i) [] ++ l.getD (2 * i + 1) [])
  | [], _, h => by simp at h
  | [_], _, h => by simp only [List.length_singleton] at h; omega
  | _ :: _ :: _, 0, _ => by simp [pairHashes]
  | _ :: _ :: rest, i + 1, h => by
      simp only [List.length_cons] at h
      simp only [pairHashes, List.getD_cons_succ, show 2 * (i + 1) = 2 * i + 1 + 1 by omega,
        getD_pairHashes rest i (by omega)]

/-- Node `i` of the level after a pass hashes nodes `2i` and `2i + 1` of the
level, or node `2i` twice when it is the last of an odd level. -/
theorem getD_merkleStep {l : List Bytes} {i : Nat} (hi : i < (l.length + 1) / 2) :
    (merkleStep H l).getD i [] = H.hash256 (l.getD (2 * i) [] ++
      if 2 * i + 1 < l.length then l.getD (2 * i + 1) [] else l.getD (2 * i) []) := by
  unfold merkleStep
  split_ifs with hodd h2
  · -- odd level, not at its end
    rw [getD_pairHashes H _ i (by simp; omega), List.getD_append _ _ _ _ (by omega),
      List.getD_append _ _ _ _ h2]
  · -- odd level, `2i` is its last node
    have hlast : l.getLastD [] = l.getD (2 * i) [] := by
      rw [List.getLastD_eq_getLast?, List.getLast?_eq_getElem?, List.getD_eq_getElem?_getD]
      congr 2
      omega
    rw [getD_pairHashes H _ i (by simp; omega), List.getD_append _ _ _ _ (by omega),
      List.getD_append_right _ _ _ _ (by omega), show 2 * i + 1 - l.length = 0 by omega, hlast]
    rfl
  · -- even level
    rw [getD_pairHashes H _ i (by omega)]
  · omega

@[simp] theorem length_treeRow (l : List Bytes) (h : Nat) :
    (treeRow H l h).length = treeWidth l.length h := by
  simp [treeRow]

theorem getD_treeRow {l : List Bytes} {h j : Nat} (hj : j < treeWidth l.length h) :
    (treeRow H l h).getD j [] = treeNode H l h j := by
  simp [treeRow, List.getD_eq_getElem?_getD, hj]

/-- A pass of the loop over row `h` of the tree gives row `h + 1`. -/
theorem merkleStep_treeRow (l : List Bytes) (h : Nat) :
    merkleStep H (treeRow H l h) = treeRow H l (h + 1) := by
  have hlen : (merkleStep H (treeRow H l h)).length = (treeRow H l (h + 1)).length := by
    simp [length_merkleStep, treeWidth_succ]
  refine List.ext_getElem hlen fun i hi _ => ?_
  have hi' : i < (treeWidth l.length h + 1) / 2 := by simpa [length_merkleStep] using hi
  rw [← List.getD_eq_getElem _ [], ← List.getD_eq_getElem _ [],
    getD_treeRow H (h := h + 1) (by rw [treeWidth_succ]; exact hi'),
    getD_merkleStep H (by simpa using hi'), length_treeRow, getD_treeRow H (by omega)]
  simp only [treeNode]
  split_ifs with h2
  · rw [getD_treeRow H h2]
  · rfl

/-- Row 0 of the tree is the list of leaves. -/
@[simp] theorem treeRow_zero (l : List Bytes) : treeRow H l 0 = l :=
  List.ext_getElem (by simp) fun i _ hi => by simp [treeRow, treeNode, List.getElem?_eq_getElem hi]

/-- After `h` passes, the loop holds row `h` of the tree. -/
theorem iterate_merkleStep_eq_treeRow (l : List Bytes) : ∀ h, (merkleStep H)^[h] l = treeRow H l h
  | 0 => (treeRow_zero H l).symm
  | h + 1 => by
      rw [Function.iterate_succ_apply', iterate_merkleStep_eq_treeRow l h, merkleStep_treeRow]

/-- The loop stops on the root of the tree, the one node at height `⌈log₂ n⌉`. -/
theorem merkleLoop_eq_treeNode (hashes : List Bytes) (h : hashes ≠ []) :
    merkleLoop H hashes h = treeNode H hashes (Nat.clog 2 hashes.length) 0 := by
  have hrun := iterate_merkleStep H hashes h
  rw [iterate_merkleStep_eq_treeRow, treeRow, treeWidth_clog (List.length_pos.2 h),
    show List.range 1 = [0] from rfl] at hrun
  simpa using hrun.symm

/-- `merkle_root` of a non-empty list of transactions is the root of the Merkle
tree over their reversed txids, read back reversed. -/
theorem merkleRootCons_eq_treeNode (txid : Bytes) (txids : List Bytes) :
    merkleRootCons H txid txids =
      (treeNode H ((txid :: txids).map List.reverse) (Nat.clog 2 (txids.length + 1)) 0).reverse := by
  rw [merkleRootCons, merkleLoop_eq_treeNode]
  simp

end MerkleTree

section Padding

variable (H : Hashes)

/-- Pairing distributes over a left part of even length. -/
theorem pairHashes_append :
    ∀ (l₁ l₂ : List Bytes), l₁.length % 2 = 0 →
      pairHashes H (l₁ ++ l₂) = pairHashes H l₁ ++ pairHashes H l₂
  | [], _, _ => rfl
  | [_], _, h => by simp at h
  | x :: y :: rest, l₂, h => by
      simp only [List.cons_append, pairHashes, List.cons.injEq, true_and]
      exact pairHashes_append rest l₂ (by simp only [List.length_cons] at h; omega)

/-- Dropping `2 j` hashes drops `j` pairs. -/
theorem pairHashes_drop : ∀ (j : Nat) (l : List Bytes),
    pairHashes H (l.drop (2 * j)) = (pairHashes H l).drop j
  | 0, _ => rfl
  | _ + 1, [] => by simp [pairHashes]
  | _ + 1, [_] => by simp [pairHashes]
  | j + 1, _ :: _ :: rest => by
      rw [show 2 * (j + 1) = 2 * j + 2 by ring]
      simpa [pairHashes] using pairHashes_drop j rest

/-- On an odd level, the pass pads with the last hash, which the appended copy
of the last hash supplies. -/
theorem merkleStep_append_last {l : List Bytes} (hodd : l.length % 2 = 1) :
    merkleStep H (l ++ l.drop (l.length - 1)) = merkleStep H l := by
  obtain ⟨L, b, rfl⟩ := (List.eq_nil_or_concat l).resolve_left (by rintro rfl; simp at hodd)
  simp only [List.concat_eq_append, List.length_append, List.length_singleton] at hodd ⊢
  rw [Nat.add_sub_cancel, List.drop_left' rfl]
  simp only [merkleStep, List.length_append, List.length_singleton]
  rw [if_neg (by omega), if_pos (by omega), List.getLastD_eq_getLast?, List.getLast?_concat]
  rfl

/-- On an even level, the appended copy of the last `2^(t+1)` hashes becomes a
copy of the last `2^t` hashes one level up. -/
theorem merkleStep_append_drop {l : List Bytes} {c t : Nat} (hl : l.length = c * 2 ^ (t + 1)) :
    merkleStep H (l ++ l.drop (l.length - 2 ^ (t + 1))) =
      merkleStep H l ++ (merkleStep H l).drop ((merkleStep H l).length - 2 ^ t) := by
  have hl2 : l.length = 2 * (c * 2 ^ t) := by rw [hl, pow_succ]; ring
  have heven : l.length % 2 = 0 := by omega
  have hdrop : l.length - 2 ^ (t + 1) = 2 * (c * 2 ^ t - 2 ^ t) := by rw [pow_succ]; omega
  have hstep : (merkleStep H l).length = c * 2 ^ t := by rw [length_merkleStep]; omega
  have hlen : (l ++ l.drop (l.length - 2 ^ (t + 1))).length % 2 = 0 := by
    rw [List.length_append, List.length_drop, hdrop]; omega
  simp only [merkleStep, heven, hlen, ne_eq, not_true_eq_false, if_false]
  rw [pairHashes_append H _ _ heven, hdrop, pairHashes_drop, ← hstep]
  simp only [merkleStep, heven, ne_eq, not_true_eq_false, if_false]

variable {m : Nat} (hodd : m % 2 = 1) (h3 : 3 ≤ m)
include hodd h3

/-- Appending a copy of the last `2^k` hashes of `m · 2^k` hashes, `m` odd and
at least 3, does not change the result of the loop. -/
theorem merkleLoop_append_drop : ∀ (k : Nat) (l : List Bytes), l.length = m * 2 ^ k →
    ∀ (h : l ≠ []) (h' : l ++ l.drop (l.length - 2 ^ k) ≠ []),
    merkleLoop H (l ++ l.drop (l.length - 2 ^ k)) h' = merkleLoop H l h
  | 0, l, hl, h, h' => by
      have hlen : (l ++ l.drop (l.length - 2 ^ 0)).length ≠ 1 := by simp; omega
      rw [merkleLoop_of_length_ne_one H h' hlen, merkleLoop_of_length_ne_one H h (by simp at hl; omega)]
      congr 1
      exact merkleStep_append_last H (by simp at hl; omega)
  | t + 1, l, hl, h, h' => by
      have hl2 : l.length = 2 * (m * 2 ^ t) := by rw [hl, pow_succ]; ring
      have hpos : 0 < m * 2 ^ t := Nat.mul_pos (by omega) (Nat.two_pow_pos t)
      have hlen : (l ++ l.drop (l.length - 2 ^ (t + 1))).length ≠ 1 := by simp; omega
      have hstep : (merkleStep H l).length = m * 2 ^ t := by rw [length_merkleStep]; omega
      rw [merkleLoop_of_length_ne_one H h' hlen, merkleLoop_of_length_ne_one H h (by omega)]
      simp only [merkleStep_append_drop H hl]
      exact merkleLoop_append_drop t _ hstep _ _

omit hodd h3 in
/-- `merkle_root` of a non-empty list is the reversed result of the loop. -/
theorem merkleRoot_of_ne_nil {txids : List Bytes} (h : txids ≠ []) :
    merkleRoot H txids = some (merkleLoop H (txids.map List.reverse) (by simpa using h)).reverse := by
  obtain ⟨t, ts, rfl⟩ := List.exists_cons_of_ne_nil h
  rfl

/-- Appending to `m · 2^k` txids (`m` odd, at least 3) a copy of their last
`2^k` txids does not change `merkle_root`: the block that the padding of the
first odd level would duplicate. -/
theorem merkleRoot_append_duplicate (L : List Bytes) (k : Nat) (hL : L.length = m * 2 ^ k) :
    merkleRoot H (L ++ L.drop (L.length - 2 ^ k)) = merkleRoot H L := by
  have hne : L ≠ [] := by rintro rfl; simp at hL; omega
  have hne' : L ++ L.drop (L.length - 2 ^ k) ≠ [] := by simp [hne]
  have hmap : (L ++ L.drop (L.length - 2 ^ k)).map List.reverse =
      L.map List.reverse ++ (L.map List.reverse).drop ((L.map List.reverse).length - 2 ^ k) := by
    simp [List.map_drop]
  rw [merkleRoot_of_ne_nil H hne, merkleRoot_of_ne_nil H hne']
  simp only [hmap]
  rw [merkleLoop_append_drop H hodd h3 k _ (by simpa using hL) (by simpa using hne)]

end Padding

theorem merkleRoot_append_duplicate_at_six_txids :
    merkleRoot paddingHashes ([[1], [2], [3], [4], [5], [6]] ++ [[5], [6]]) =
      merkleRoot paddingHashes [[1], [2], [3], [4], [5], [6]] :=
  merkleRoot_append_duplicate paddingHashes (m := 3) (by decide) (by decide)
    [[1], [2], [3], [4], [5], [6]] 1 rfl

end Blocks
end Btclib
