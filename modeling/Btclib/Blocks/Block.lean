import Mathlib.Data.Nat.Log
import Btclib.Blocks.Header

/-!
# Blocks and their merkle root

A `Block` is a header and a list of transactions. `Tx` is not among the
sources: a block reads three things of a transaction, which `TxOps` takes as
given: its `txid`, whether the `prevout` of its first input is a coinbase
(`vin[0]` raises `IndexError` on a transaction with no inputs), and its own
`assert_valid`.

`merkle_root` hashes the reversed txids level by level: a level with an odd
count duplicates its last hash, then adjacent pairs are hashed together, until
one hash is left. On an empty list the loop never stops: `merkleStep` maps the
empty level to itself, and its length is not 1.

**Results.**
* `length_merkleStep`: one pass halves the level, rounding up, so the loop
  stops on every non-empty list.
* `merkleStep_nil`: the empty level is a fixed point of the loop.
* `iterate_merkleStep`: `⌈log₂ n⌉` passes leave the root alone.
* `Block.assertValid_eq_ok_iff`: what `Block.assert_valid` accepts.
* `Block.assertValid_nil`: a block whose header is valid and which has no
  transactions raises `IndexError`.
-/

namespace Btclib
namespace Blocks

/-- What a block reads of a transaction. -/
structure TxOps (T : Type) where
  /-- `tx.txid`. -/
  txid : T → Except PyExc Bytes
  /-- `tx.vin[0].prevout.is_coinbase`. -/
  firstPrevoutIsCoinbase : T → Except PyExc Bool
  /-- `tx.assert_valid()`. -/
  assertValid : T → Except PyExc Unit

section MerkleRoot

variable (H : Hashes)

/-- The `for` loop of `merkle_root`: `hash256` of each adjacent pair. -/
def pairHashes : List Bytes → List Bytes
  | x :: y :: rest => H.hash256 (x ++ y) :: pairHashes rest
  | _ => []

/-- One pass of the `while` loop of `merkle_root`. -/
def merkleStep (hashes : List Bytes) : List Bytes :=
  pairHashes H (if hashes.length % 2 ≠ 0 then hashes ++ [hashes.getLastD []] else hashes)

theorem length_pairHashes : ∀ l : List Bytes, (pairHashes H l).length = l.length / 2
  | x :: y :: rest => by simp [pairHashes, length_pairHashes rest]; omega
  | [] => rfl
  | [_] => by simp [pairHashes]

/-- One pass halves the level, rounding up. -/
theorem length_merkleStep (hashes : List Bytes) :
    (merkleStep H hashes).length = (hashes.length + 1) / 2 := by
  unfold merkleStep
  split_ifs <;> simp [length_pairHashes]; omega

@[simp] theorem merkleStep_nil : merkleStep H [] = [] :=
  rfl

theorem merkleStep_ne_nil {hashes : List Bytes} (h : hashes ≠ []) : merkleStep H hashes ≠ [] := by
  rw [← List.length_pos, length_merkleStep]
  have := List.length_pos.2 h
  omega

/-- The `while len(hashes) != 1` loop on a non-empty level: its last hash. -/
def merkleLoop (hashes : List Bytes) (h : hashes ≠ []) : Bytes :=
  if hashes.length = 1 then hashes.head h
  else merkleLoop (merkleStep H hashes) (merkleStep_ne_nil H h)
termination_by hashes.length
decreasing_by
  rw [length_merkleStep]
  have := List.length_pos.2 h
  omega

/-- `merkle_root` of the txids of a non-empty list of transactions. -/
def merkleRootCons (txid : Bytes) (txids : List Bytes) : Bytes :=
  (merkleLoop H ((txid :: txids).map List.reverse) (by simp)).reverse

/-- One txid is its own merkle root. -/
@[simp] theorem merkleRootCons_nil (txid : Bytes) : merkleRootCons H txid [] = txid := by
  rw [merkleRootCons, merkleLoop]
  simp

/-- `merkle_root` of a list of txids; `none` on the empty list, where the loop
runs forever (`merkleStep_nil`). -/
def merkleRoot : List Bytes → Option Bytes
  | [] => none
  | txid :: txids => some (merkleRootCons H txid txids)

/-- `⌈log₂ n⌉` passes of the loop leave the root alone. -/
theorem iterate_merkleStep (hashes : List Bytes) (h : hashes ≠ []) :
    (merkleStep H)^[Nat.clog 2 hashes.length] hashes = [merkleLoop H hashes h] := by
  induction hashes, h using merkleLoop.induct H with
  | case1 hashes _ h1 =>
      obtain ⟨x, rfl⟩ := List.length_eq_one.1 h1
      simp [merkleLoop]
  | case2 hashes h h1 ih =>
      have h2 : 2 ≤ hashes.length := by
        have := List.length_pos.2 h
        omega
      rw [merkleLoop, if_neg h1, Nat.clog_of_two_le (by norm_num) h2,
        Function.iterate_succ_apply, ← ih, length_merkleStep]
      rfl

end MerkleRoot

/-- A block: its header and its transactions. -/
structure Block (T : Type) where
  header : BlockHeader := {}
  transactions : List T := []
deriving DecidableEq, Repr

namespace Block

variable {T : Type} (H : Hashes) (X : TxOps T)

/-- `Block.assert_valid`. -/
def assertValid (b : Block T) : Except PyExc Unit := do
  b.header.assertValid H
  match b.transactions with
  | [] => throw (.indexError "list index out of range")
  | tx0 :: rest =>
    let coinbase ← X.firstPrevoutIsCoinbase tx0
    if ¬ coinbase then throw (.btclibValueError "first transaction is not a coinbase")
    rest.forM X.assertValid
    let txid ← X.txid tx0
    let txids ← rest.mapM X.txid
    let root := merkleRootCons H txid txids
    if root ≠ b.header.merkleRoot then
      throw (.btclibValueError ("invalid merkle root: " ++ hexBytes b.header.merkleRoot ++
        " instead of: " ++ hexBytes root))

/-- `Block.assert_valid` passes exactly on a valid header over a coinbase and
valid transactions whose txids hash to the header's merkle root. -/
theorem assertValid_eq_ok_iff (b : Block T) :
    b.assertValid H X = .ok () ↔ b.header.Valid H ∧ ∃ tx0 rest, b.transactions = tx0 :: rest ∧
      X.firstPrevoutIsCoinbase tx0 = .ok true ∧ (∀ tx ∈ rest, X.assertValid tx = .ok ()) ∧
      ∃ txid txids, X.txid tx0 = .ok txid ∧ rest.mapM X.txid = .ok txids ∧
        merkleRootCons H txid txids = b.header.merkleRoot := by
  rcases b with ⟨header, _ | ⟨tx0, rest⟩⟩
  · simp [assertValid, bind_eq_ok]
  · simp [assertValid, ← BlockHeader.assertValid_eq_ok_iff, bind_eq_ok, ite_eq_iff,
      forM_eq_ok_iff, Unique.exists_iff]
    exact fun _ => ⟨fun h => ⟨_, _, ⟨rfl, rfl⟩, h⟩, fun ⟨_, _, ⟨h1, h2⟩, h⟩ => h1 ▸ h2 ▸ h⟩

/-- A block with a valid header and no transactions raises `IndexError`. -/
theorem assertValid_nil (b : Block T) (hv : b.header.assertValid H = .ok ())
    (ht : b.transactions = []) :
    b.assertValid H X = .error (.indexError "list index out of range") := by
  simp [assertValid, hv, ht]

end Block

end Blocks
end Btclib
