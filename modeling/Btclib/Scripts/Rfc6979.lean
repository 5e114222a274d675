import Btclib.Python

/-!
# Deterministic nonces: `rfc6979.py`

`rfc6979_raw(prv, m, hasher)` derives the signing nonce from the private key
and the message digest with the HMAC-based generator of RFC 6979, section 3.2.
Its helpers `bits2int`, `int2octets` and `bits2octets` convert between byte
strings and integers below the curve order `q`: `qlen` is the bit length of `q`
and `rlen` is `qlen` rounded up to whole bytes.

The generator's `while True` retry loop is run for at most `rounds` rounds:
`rfc6979Raw` is an `ExceptT PyExc Option` computation, `none` when no round
returned. Its inner `while len(t) * 8 < qlen` loop appends a whole digest per
pass, so `qlen` passes are more than it ever takes.

**Reference.** `rfcNonce` is RFC 6979's algorithm in the RFC's own words, with
`V` and `K` initialised to `hlen` bytes, `hlen` the hasher's digest size.
`rfc6979_raw` sizes them by `len(m)` instead.

**Results.**
* `int2octets_of_lt`: the loop of `int2octets` writes `x` big-endian in
  `rlen / 8` bytes.
* `bits2int_eq`, `bits2octets_eq`: on non-empty input the code's helpers are
  the RFC's.
* `rfc6979Raw_eq_rfcNonceFrom`: for every number of rounds, `rfc6979_raw` is
  RFC 6979's generator started from `V` and `K` of `len(m)` bytes.
* `rfc6979Raw_eq_rfcNonce`: hence it is RFC 6979's nonce when `len(m)` is the
  digest size.
* `int2octets_bits2int`: the helpers are inverse on secp256k1's order.
-/

namespace Btclib
namespace Scripts

/-- A hash function of `hashlib`: `hasher(data).digest()`, with its
`digest_size` and `block_size`. A digest is never empty. -/
structure Hasher where
  /-- `hasher(data).digest()`. -/
  digest : Bytes → Bytes
  /-- `digest_size`. -/
  digestSize : Nat
  /-- `block_size`, the key size of HMAC. -/
  blockSize : Nat
  length_digest : ∀ b, (digest b).length = digestSize
  digestSize_pos : 0 < digestSize

namespace Hasher

variable (H : Hasher)

/-- `hmac.new(key, msg, hasher).digest()`, the RFC 2104 construction of the
`hmac` module: a key longer than a block is hashed, then padded with zero bytes
to a block. -/
def hmac (key msg : Bytes) : Bytes :=
  let key := if H.blockSize < key.length then H.digest key else key
  let key := key ++ List.replicate (H.blockSize - key.length) 0
  H.digest (key.map (· ^^^ 0x5c) ++ H.digest (key.map (· ^^^ 0x36) ++ msg))

@[simp] theorem length_hmac (key msg : Bytes) : (H.hmac key msg).length = H.digestSize :=
  H.length_digest _

end Hasher

/-- Modelled from the spec: `order` of `ECsecp256k1`, which is not among the
sources: the order of the secp256k1 generator. -/
def ecOrder : Nat := 0xFFFFFFFFFFFFFFFFFFFFFFFFFFFFFFFEBAAEDCE6AF48A03BBFD25E8CD0364141

/-- `len(bin(n)) - 2`, the number of binary digits of `n`: halvings until one
digit is left, fewer than `n` of them. -/
def binLength (n : Nat) : Nat :=
  go n n
where
  /-- The halvings, at most `fuel` of them. -/
  go : Nat → Nat → Nat
    | 0, _ => 1
    | fuel + 1, n => if n < 2 then 1 else go fuel (n / 2) + 1

/-- `n` has fewer than `binLength n` binary digits. -/
theorem lt_two_pow_binLength_go : ∀ (fuel n : Nat), n ≤ fuel → n < 2 ^ binLength.go fuel n
  | 0, n, h => by simp [binLength.go]; omega
  | fuel + 1, n, h => by
      unfold binLength.go
      split_ifs with h2
      · simp; omega
      · have := lt_two_pow_binLength_go fuel (n / 2) (by omega)
        rw [pow_succ]
        omega

theorem lt_two_pow_binLength (n : Nat) : n < 2 ^ binLength n :=
  lt_two_pow_binLength_go n n le_rfl

theorem one_le_binLength_go : ∀ (fuel n : Nat), 1 ≤ binLength.go fuel n
  | 0, _ => le_rfl
  | fuel + 1, n => by unfold binLength.go; split_ifs <;> omega

section Helpers

variable (order : Nat)

/-- `qlen = len(bin(ec_order)) - 2`. -/
def qlen : Nat := binLength order

/-- `rlen = ((qlen + 7) // 8) * 8`. -/
def rlen : Nat := (qlen order + 7) / 8 * 8

theorem qlen_pos : 0 < qlen order :=
  one_le_binLength_go order order

theorem qlen_le_rlen : qlen order ≤ rlen order := by
  unfold rlen
  omega

theorem two_pow_rlen : 2 ^ rlen order = 256 ^ (rlen order / 8) := by
  rw [show rlen order = 8 * (rlen order / 8) by unfold rlen; omega, pow_mul]
  norm_num

/-- `bits2int`: `int(hexlify(b), 16)`, which raises on empty `b`, cut to its
leftmost `qlen` bits. -/
def bits2int (b : Bytes) : Except PyExc Nat := do
  if b = [] then throw (.valueError "invalid literal for int() with base 16: b\x27\x27")
  let i := fromBytesBE b
  let blen := b.length * 8
  pure (if blen > qlen order then i >>> (blen - qlen order) else i)

/-- The `while x > 0` loop of `int2octets`: prepend the low byte of `x`, then
shift it out. Each pass shifts out a byte of a positive `x`, so `x` passes are
more than it takes. -/
def int2octetsLoop : Nat → Nat → Bytes → Bytes
  | 0, _, octets => octets
  | fuel + 1, x, octets =>
      if x > 0 then int2octetsLoop fuel (x >>> 8) (byteOf (0xff &&& x) :: octets) else octets

/-- `int2octets`. -/
def int2octets (x : Int) : Bytes :=
  let octets := int2octetsLoop x.toNat x.toNat []
  let padding := List.replicate (rlen order / 8 - octets.length) 0
  padding ++ octets

/-- `bits2octets`. -/
def bits2octets (b : Bytes) : Except PyExc Bytes := do
  let z1 ← bits2int order b
  let z2 := z1 % order
  pure (int2octets order z2)

/-- `default_hash_digest_size`. -/
def defaultHashDigestSize : Nat := 32

/-- `check_hash_digest(m, hash_digest_size)`. -/
def checkHashDigest (m : Bytes) (hashDigestSize : Nat) : Except PyExc Unit :=
  if m.length = hashDigestSize then pure ()
  else throw (.assertionError "m must be bytes with correct bytes length")

/-! ## The RFC's helpers -/

/-- RFC 6979, 2.3.2, `bits2int`: the `qlen` leftmost bits of `b`, zero bits
added on the left of a shorter `b`, read big-endian. -/
def rfcBits2int (b : Bytes) : Nat :=
  if qlen order < 8 * b.length then fromBytesBE b / 2 ^ (8 * b.length - qlen order)
  else fromBytesBE b

/-- RFC 6979, 2.3.3, `int2octets`: `x` in `rlen` bits, big-endian. -/
def rfcInt2octets (x : Nat) : Bytes :=
  toBytesBE (rlen order / 8) x

/-- RFC 6979, 2.3.4, `bits2octets`: `bits2int` reduced modulo `q`, as octets. -/
def rfcBits2octets (b : Bytes) : Bytes :=
  rfcInt2octets order (rfcBits2int order b % order)

/-! ## The code's helpers are the RFC's -/

theorem bits2int_eq {b : Bytes} (hb : b ≠ []) : bits2int order b = .ok (rfcBits2int order b) := by
  simp only [bits2int, hb, if_false, rfcBits2int, Nat.shiftRight_eq_div_pow, Nat.mul_comm b.length,
    gt_iff_lt]
  rfl

/-- Every integer of a non-empty byte string has at most `qlen` bits. -/
theorem rfcBits2int_lt (b : Bytes) : rfcBits2int order b < 2 ^ qlen order := by
  have hb : fromBytesBE b < 2 ^ (8 * b.length) := by
    simpa [pow_mul] using fromBytesBE_lt b
  unfold rfcBits2int
  split_ifs with h
  · rw [Nat.div_lt_iff_lt_mul (Nat.two_pow_pos _), ← pow_add, Nat.add_sub_cancel' h.le]
    exact hb
  · exact lt_of_lt_of_le hb (Nat.pow_le_pow_right (by norm_num) (not_lt.1 h))

theorem int2octetsLoop_append : ∀ (fuel x : Nat) (acc : Bytes),
    int2octetsLoop fuel x acc = int2octetsLoop fuel x [] ++ acc
  | 0, _, _ => rfl
  | fuel + 1, x, acc => by
      unfold int2octetsLoop
      split_ifs
      · rw [int2octetsLoop_append fuel _ (_ :: acc), int2octetsLoop_append fuel _ [_]]
        simp
      · rfl

theorem toBytesBE_succ (w x : Nat) : toBytesBE (w + 1) x = toBytesBE w (x / 256) ++ [byteOf x] := by
  simp [toBytesBE, toBytesLE]

theorem toBytesBE_zero (w : Nat) : toBytesBE w 0 = List.replicate w 0 := by
  simp [toBytesBE]

/-- The loop writes the significant bytes of `x`, big-endian: padded with zero
bytes to a width that holds `x`, they are `x` in that width. -/
theorem int2octetsLoop_spec : ∀ (w fuel x : Nat), x < 256 ^ w → x ≤ fuel →
    (int2octetsLoop fuel x []).length ≤ w ∧
      List.replicate (w - (int2octetsLoop fuel x []).length) 0 ++ int2octetsLoop fuel x [] =
        toBytesBE w x
  | w, fuel, 0, _, _ => by
      have h0 : int2octetsLoop fuel 0 [] = [] := by cases fuel <;> rfl
      simp [h0, toBytesBE_zero]
  | 0, _, x + 1, hx, _ => by simp at hx
  | w + 1, fuel + 1, x + 1, hx, hf => by
      have hbyte : byteOf (0xff &&& (x + 1)) = byteOf (x + 1) := by
        rw [Nat.and_comm, show (0xff : Nat) = 2 ^ 8 - 1 by rfl, Nat.and_pow_two_sub_one_eq_mod]
        exact Fin.ext (by simp [byteOf])
      have hshift : (x + 1) >>> 8 = (x + 1) / 256 := Nat.shiftRight_eq_div_pow _ _
      obtain ⟨hl, he⟩ := int2octetsLoop_spec w fuel ((x + 1) / 256)
        (by rw [pow_succ] at hx; omega) (by omega)
      have hloop : int2octetsLoop (fuel + 1) (x + 1) [] =
          int2octetsLoop fuel ((x + 1) / 256) [] ++ [byteOf (x + 1)] := by
        rw [int2octetsLoop, if_pos (Nat.succ_pos x), hbyte, hshift, int2octetsLoop_append]
      rw [hloop, toBytesBE_succ, ← he, List.length_append, List.length_singleton]
      exact ⟨by omega, by rw [Nat.add_sub_add_right, List.append_assoc]⟩

/-- `int2octets` writes a non-negative `x` below `2^rlen` big-endian in
`rlen / 8` bytes, as the RFC does. -/
theorem int2octets_of_lt {x : Nat} (hx : x < 2 ^ rlen order) :
    int2octets order x = rfcInt2octets order x := by
  rw [two_pow_rlen] at hx
  exact (int2octetsLoop_spec (rlen order / 8) x x hx le_rfl).2

theorem order_lt_two_pow_rlen : order < 2 ^ rlen order :=
  lt_of_lt_of_le (lt_two_pow_binLength order)
    (Nat.pow_le_pow_right (by norm_num) (qlen_le_rlen order))

theorem bits2octets_eq {b : Bytes} (hb : b ≠ []) (hq : 0 < order) :
    bits2octets order b = .ok (rfcBits2octets order b) := by
  have hlt : rfcBits2int order b % order < 2 ^ rlen order :=
    lt_trans (Nat.mod_lt _ hq) (order_lt_two_pow_rlen order)
  simp only [bits2octets, bits2int_eq order hb, ok_bind, rfcBits2octets]
  rw [show ((rfcBits2int order b % order : Nat) : Int) = ((rfcBits2int order b % order : Nat) : Int)
    from rfl, int2octets_of_lt order hlt]
  rfl

end Helpers

section Generator

variable (order : Nat) (H : Hasher)

/-- The inner `while len(t) * 8 < qlen` loop: `v = hmac(k, v)`, `t = t + v`. -/
def rfc6979Fill (k : Bytes) : Nat → Bytes → Bytes → Bytes × Bytes
  | 0, v, t => (v, t)
  | fuel + 1, v, t =>
      if t.length * 8 < qlen order then
        let v := H.hmac k v
        rfc6979Fill k fuel v (t ++ v)
      else (v, t)

/-- The `while True` loop of `rfc6979_raw`, allowed `rounds` rounds. -/
def rfc6979Loop : Nat → Bytes → Bytes → ExceptT PyExc Option Nat
  | 0, _, _ => ExceptT.lift none
  | rounds + 1, k, v => do
      let (v, t) := rfc6979Fill order H k (qlen order) v []
      let nonce ← bits2int order t
      if nonce ≥ 1 ∧ nonce < order then pure nonce
      else
        let k := H.hmac k (v ++ [0])
        let v := H.hmac k v
        rfc6979Loop rounds k v

/-- `rfc6979_raw`, with its `while True` loop allowed `rounds` rounds. -/
def rfc6979Raw (rounds : Nat) (prv : Int) (m : Bytes) : ExceptT PyExc Option Nat := do
  let hashSize := m.length
  let prvAndM := int2octets order prv ++ (← bits2octets order m)
  let v := List.replicate hashSize (1 : Byte)
  let k := List.replicate hashSize (0 : Byte)
  let k := H.hmac k (v ++ [0] ++ prvAndM)
  let v := H.hmac k v
  let k := H.hmac k (v ++ [1] ++ prvAndM)
  let v := H.hmac k v
  rfc6979Loop order H rounds k v

/-- `rfc6979`. -/
def rfc6979 (rounds : Nat) (prv : Int) (m : Bytes) : ExceptT PyExc Option Nat := do
  if ¬ (0 < prv ∧ prv < order) then throw (.assertionError "invalid prv")
  checkHashDigest m defaultHashDigestSize
  rfc6979Raw order H rounds prv m

/-! ## The RFC's generator -/

/-- RFC 6979, 3.2, step h.2: while `tlen < qlen`, `V = HMAC_K(V)` and
`T = T || V`. -/
def rfcGenerateT (K : Bytes) : Nat → Bytes → Bytes → Bytes × Bytes
  | 0, V, T => (V, T)
  | fuel + 1, V, T =>
      if 8 * T.length < qlen order then rfcGenerateT K fuel (H.hmac K V) (T ++ H.hmac K V)
      else (V, T)

/-- RFC 6979, 3.2, step h, at most `rounds` times: `k = bits2int(T)` is the
nonce when it is in `[1, q-1]`; otherwise `K = HMAC_K(V || 0x00)`,
`V = HMAC_K(V)`, and again. -/
def rfcGenerate : Nat → Bytes → Bytes → Option Nat
  | 0, _, _ => none
  | rounds + 1, K, V =>
      let (V, T) := rfcGenerateT order H K (qlen order) V []
      let k := rfcBits2int order T
      if 1 ≤ k ∧ k ≤ order - 1 then some k
      else
        let K := H.hmac K (V ++ [0])
        rfcGenerate rounds K (H.hmac K V)

/-- RFC 6979, 3.2, steps d to h, for the key `x` and the hashed message `h1`,
from the initial `V` and `K`. -/
def rfcNonceFrom (rounds x : Nat) (h1 V K : Bytes) : Option Nat :=
  let K := H.hmac K (V ++ [0] ++ rfcInt2octets order x ++ rfcBits2octets order h1)
  let V := H.hmac K V
  let K := H.hmac K (V ++ [1] ++ rfcInt2octets order x ++ rfcBits2octets order h1)
  let V := H.hmac K V
  rfcGenerate order H rounds K V

/-- RFC 6979, 3.2: `V` is `hlen` bytes `0x01` (step b) and `K` is `hlen` bytes
`0x00` (step c), `hlen` the digest size. -/
def rfcNonce (rounds x : Nat) (h1 : Bytes) : Option Nat :=
  rfcNonceFrom order H rounds x h1 (List.replicate H.digestSize 1)
    (List.replicate H.digestSize 0)

/-! ## The code's generator is the RFC's -/

theorem rfc6979Fill_eq (k : Bytes) : ∀ (fuel : Nat) (v t : Bytes),
    rfc6979Fill order H k fuel v t = rfcGenerateT order H k fuel v t
  | 0, _, _ => rfl
  | fuel + 1, v, t => by
      simp only [rfc6979Fill, rfcGenerateT, Nat.mul_comm t.length, rfc6979Fill_eq k fuel]

/-- The first pass of the inner loop always runs, so `T` is never empty. -/
theorem rfcGenerateT_ne_nil (K V : Bytes) :
    (rfcGenerateT order H K (qlen order) V []).2 ≠ [] := by
  obtain ⟨fuel, hf⟩ : ∃ fuel, qlen order = fuel + 1 := ⟨qlen order - 1, by have := qlen_pos order; omega⟩
  have hT : ∀ (fuel : Nat) (V T : Bytes), T ≠ [] → (rfcGenerateT order H K fuel V T).2 ≠ [] := by
    intro fuel
    induction fuel with
    | zero => exact fun _ _ h => h
    | succ fuel ih =>
        intro V T h
        unfold rfcGenerateT
        split_ifs
        · exact ih _ _ (by simp [h])
        · exact h
  rw [hf, rfcGenerateT, if_pos (by simp [← hf, qlen_pos])]
  apply hT
  rw [List.nil_append, ← List.length_pos, H.length_hmac]
  exact H.digestSize_pos

theorem rfc6979Loop_eq (hq : 0 < order) : ∀ (rounds : Nat) (k v : Bytes),
    (rfc6979Loop order H rounds k v).run = (rfcGenerate order H rounds k v).map .ok
  | 0, _, _ => rfl
  | rounds + 1, k, v => by
      have hne := rfcGenerateT_ne_nil order H k v
      have hrange : ∀ n : Nat, (n ≥ 1 ∧ n < order) ↔ (1 ≤ n ∧ n ≤ order - 1) := fun n => by omega
      simp only [rfc6979Loop, rfcGenerate, rfc6979Fill_eq, hrange]
      rw [bits2int_eq order hne, liftM_ok_bind]
      split_ifs
      · rfl
      · exact rfc6979Loop_eq hq rounds _ _

/-- For every number of rounds, `rfc6979_raw` is RFC 6979's generator started
from `V` and `K` of `len(m)` bytes. -/
theorem rfc6979Raw_eq_rfcNonceFrom (prv : Nat) (hprv : 0 < prv ∧ prv < order) {m : Bytes}
    (hm : m ≠ []) (rounds : Nat) :
    (rfc6979Raw order H rounds prv m).run =
      (rfcNonceFrom order H rounds prv m (List.replicate m.length 1)
        (List.replicate m.length 0)).map .ok := by
  have hq : 0 < order := by omega
  have hx : int2octets order prv = rfcInt2octets order prv :=
    int2octets_of_lt order (lt_trans hprv.2 (order_lt_two_pow_rlen order))
  simp only [rfc6979Raw, bits2octets_eq order hm hq, hx, rfcNonceFrom, List.append_assoc]
  rw [← rfc6979Loop_eq order H hq]
  rfl

/-- When `m` has the digest size of the hasher, `rfc6979_raw` is RFC 6979's
nonce, for every number of rounds. -/
theorem rfc6979Raw_eq_rfcNonce (prv : Nat) (hprv : 0 < prv ∧ prv < order) {m : Bytes}
    (hlen : m.length = H.digestSize) (rounds : Nat) :
    (rfc6979Raw order H rounds prv m).run = (rfcNonce order H rounds prv m).map .ok := by
  have hm : m ≠ [] := by
    rw [← List.length_pos, hlen]
    exact H.digestSize_pos
  rw [rfc6979Raw_eq_rfcNonceFrom order H prv hprv hm, rfcNonce, hlen]

/-- RFC 6979's generator returns only nonces in `[1, q-1]`. -/
theorem rfcGenerate_mem : ∀ {rounds : Nat} {K V : Bytes} {k : Nat},
    rfcGenerate order H rounds K V = some k → 1 ≤ k ∧ k ≤ order - 1
  | 0, _, _, _, h => by cases h
  | rounds + 1, K, V, k, h => by
      simp only [rfcGenerate] at h
      split_ifs at h with hk
      · cases h
        exact hk
      · exact rfcGenerate_mem h

/-- What `rfc6979` returns: a nonce in `(0, n)`, for a key in `(0, n)` and a
32-byte message. -/
theorem rfc6979_eq_ok {rounds : Nat} {prv : Int} {m : Bytes} {k : Nat}
    (h : (rfc6979 order H rounds prv m).run = some (.ok k)) :
    (0 < prv ∧ prv < order) ∧ m.length = 32 ∧ 0 < k ∧ k < order := by
  by_cases hprv : 0 < prv ∧ prv < order
  · by_cases hm : m.length = 32
    · lift prv to Nat using hprv.1.le
      have hm0 : m ≠ [] := by rintro rfl; simp at hm
      simp only [rfc6979, if_neg (not_not.2 hprv), checkHashDigest, defaultHashDigestSize, hm,
        if_true, liftM_pure_bind, pure_bind] at h
      rw [rfc6979Raw_eq_rfcNonceFrom order H prv (by exact_mod_cast hprv) hm0] at h
      obtain ⟨k', hk', hkk⟩ := Option.map_eq_some'.1 h
      cases hkk
      have := rfcGenerate_mem order H hk'
      exact ⟨hprv, hm, by omega, by omega⟩
    · simp [rfc6979, hprv, checkHashDigest, defaultHashDigestSize, hm] at h
  · simp [rfc6979, hprv] at h

/-- The step `eph_prv = rfc6979(prv, m, hasher)` of the signers: when what
follows returns, it ran on a nonce of `rfc6979` in `(0, n)`. -/
theorem rfc6979_bind_eq_ok {β : Type} {rounds : Nat} {prv : Int} {m : Bytes} {b : β}
    {g : Int → ExceptT PyExc Option β}
    (h : ((Int.ofNat <$> rfc6979 order H rounds prv m) >>= g).run = some (.ok b)) :
    ∃ k : Int, (0 < k ∧ k < order) ∧ (g k).run = some (.ok b) := by
  rw [bind_map_left] at h
  obtain ⟨k, hk, hg⟩ := bind_run_eq_ok h
  obtain ⟨-, -, hk0, hkn⟩ := rfc6979_eq_ok order H hk
  exact ⟨k, ⟨by omega, by omega⟩, hg⟩

/-- A 32-byte hasher whose digest is the length of its input plus the sum of
its bytes. -/
def lengthSumHasher : Hasher where
  digest b := toBytesBE 32 (b.length + (b.map Fin.val).sum)
  digestSize := 32
  blockSize := 64
  length_digest _ := length_toBytesBE _ _
  digestSize_pos := by decide

theorem rfc6979Raw_eq_rfcNonce_at_lengthSumHasher :
    (0 < 1 ∧ 1 < ecOrder) ∧ (List.replicate 32 (1 : Byte)).length = lengthSumHasher.digestSize ∧
      (rfc6979Raw ecOrder lengthSumHasher 1 1 (List.replicate 32 1)).run =
        (rfcNonce ecOrder lengthSumHasher 1 1 (List.replicate 32 1)).map .ok :=
  ⟨by decide, rfl, rfc6979Raw_eq_rfcNonce ecOrder lengthSumHasher 1 (by decide) (m := List.replicate 32 1) rfl 1⟩

set_option maxRecDepth 10000 in
/-- A one-byte `m` under a 32-byte hasher: `V` starts as one byte `0x01`
instead of 32, and `rfc6979_raw` returns another nonce than RFC 6979. -/
theorem rfc6979Raw_one_byte_message :
    (rfc6979Raw ecOrder lengthSumHasher 1 1 [1]).run = some (.ok 5934) ∧
      rfcNonce ecOrder lengthSumHasher 1 1 [1] = some 6262 := by
  constructor <;> decide

end Generator

/-! ## The helpers on secp256k1's order -/

set_option maxRecDepth 2000 in
theorem qlen_ecOrder : qlen ecOrder = 256 := by
  decide

theorem rlen_ecOrder : rlen ecOrder = 256 := by
  rw [rlen, qlen_ecOrder]

/-- When `qlen` is a whole number of bytes, `bits2int` reads back what
`int2octets` writes. -/
theorem rfcBits2int_rfcInt2octets {order x : Nat} (h8 : qlen order = rlen order)
    (hx : x < 2 ^ rlen order) : rfcBits2int order (rfcInt2octets order x) = x := by
  have hlen : 8 * (rfcInt2octets order x).length = rlen order := by
    rw [rfcInt2octets, length_toBytesBE]; unfold rlen; omega
  rw [rfcBits2int, hlen, h8, if_neg (lt_irrefl _), rfcInt2octets,
    fromBytesBE_toBytesBE_of_lt (two_pow_rlen order ▸ hx)]

/-- On secp256k1's order, `int2octets` writes every `x` below `2^rlen` in
`rlen / 8` bytes and `bits2int` reads it back; `bits2int` of a non-empty byte
string has at most `qlen` bits, and `bits2octets` writes it modulo the order in
`rlen / 8` bytes. -/
theorem int2octets_bits2int :
    (∀ x : Int, 0 ≤ x → x < 2 ^ rlen ecOrder →
      (int2octets ecOrder x).length = rlen ecOrder / 8 ∧
        bits2int ecOrder (int2octets ecOrder x) = .ok x.toNat) ∧
    (∀ b : Bytes, b ≠ [] → ∃ z, bits2int ecOrder b = .ok z ∧ z < 2 ^ qlen ecOrder ∧
      ∃ o, bits2octets ecOrder b = .ok o ∧ o.length = rlen ecOrder / 8 ∧
        fromBytesBE o = z % ecOrder) := by
  have hq : 0 < ecOrder := by decide
  constructor
  · intro x hx0 hx
    lift x to Nat using hx0
    have hlt : x < 2 ^ rlen ecOrder := by exact_mod_cast hx
    have hne : rfcInt2octets ecOrder x ≠ [] := by
      rw [← List.length_pos, rfcInt2octets, length_toBytesBE, rlen_ecOrder]; norm_num
    rw [int2octets_of_lt ecOrder hlt, bits2int_eq ecOrder hne,
      rfcBits2int_rfcInt2octets (by rw [qlen_ecOrder, rlen_ecOrder]) hlt]
    exact ⟨length_toBytesBE _ _, rfl⟩
  · intro b hb
    have hmod : rfcBits2int ecOrder b % ecOrder < 256 ^ (rlen ecOrder / 8) :=
      two_pow_rlen ecOrder ▸ lt_trans (Nat.mod_lt _ hq) (order_lt_two_pow_rlen ecOrder)
    exact ⟨_, bits2int_eq ecOrder hb, rfcBits2int_lt ecOrder b, _, bits2octets_eq ecOrder hb hq,
      length_toBytesBE _ _, fromBytesBE_toBytesBE_of_lt hmod⟩

end Scripts
end Btclib
